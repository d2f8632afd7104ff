import WebServer.Http.Incremental
import WebServer.Foundation.Run

/-!
# Where a request head ends

The header branch recognizes the empty line by the missing colon, so every header line
without a colon ends the head, also one that is not empty. A parser is driven here in any
order by input that arrives, calls of `ParseContent` and resets. Heads end only at empty
lines in exactly those runs in which every line of a head, up to its first empty line, has
a colon.
-/

namespace WebServer.Http

open WebServer.Foundation
open WebServer.Util (Bytes Buffer ascii crlf)

namespace Iteration

/-- The loop body leaves the parser with a completed request. -/
def completes {β : Type} : Iteration β → Bool
  | again content _ => content.getCompleteRequest
  | finished _ content _ => content.getCompleteRequest
  | threw => false

end Iteration

namespace HttpContent

/-- The line which the loop body consumes in the state for headers. -/
def headerLine (content : HttpContent) (text : Bytes) : Option Bytes :=
  if content.parseState = .kParseHeaders then (searchIdx crlf text).map text.take else none

/-- The states and readable bytes in which a loop executes its body. -/
def bodies : ℕ → HttpContent → Bytes → List (HttpContent × Bytes)
  | 0, _, _ => []
  | fuel + 1, content, text =>
    (content, text) :: match content.bytesIteration text with
      | .again content' text' => bodies fuel content' text'
      | .finished _ _ _ => []
      | .threw => []

/-- The executions of the loop body in a call of `ParseContent`. -/
def callBodies (content : HttpContent) (buffer : Buffer) : List (HttpContent × Bytes) :=
  bodies (buffer.readable + 1) content buffer.bytes

/-- In a call of `ParseContent` a head ends only at an empty line, and a nonempty header line
without a colon is rejected. -/
structure EndsAtEmptyLine (content : HttpContent) (buffer : Buffer) : Prop where
  completed_empty : ∀ body ∈ content.callBodies buffer, body.1.getCompleteRequest = false →
    (body.1.bytesIteration body.2).completes = true → body.1.headerLine body.2 = some []
  colonless_rejected : ∀ body ∈ content.callBodies buffer, ∀ line, body.1.headerLine body.2 = some line →
    line ≠ [] → colonMark ∉ line → ∃ content' buffer',
      content.parseContent buffer = some (.returned false content' buffer') ∧ content'.getCompleteRequest = false

/-- The lines of a text that are terminated, at most as many as the bound says. -/
def terminatedLines : ℕ → Bytes → List Bytes
  | 0, _ => []
  | count + 1, text =>
    match searchIdx crlf text with
    | some finish => text.take finish :: terminatedLines count (text.drop (finish + 2))
    | none => []

/-- The header lines in front of a parser, up to the first empty line. In the state for the
request line they stand behind the first line, if that is accepted. -/
def headLines (content : HttpContent) (text : Bytes) : List Bytes :=
  match content.parseState, terminatedLines (text.length + 1) text with
  | .kParseHeaders, lines => lines.takeWhile (· ≠ [])
  | .kParseRequestLine, first :: lines =>
    match content.request.parseRequestLine first with
    | .ok (true, _) => lines.takeWhile (· ≠ [])
    | _ => []
  | _, _ => []

/-- Every line of the head in front of the parser has a colon. -/
def ColonInEveryLine (content : HttpContent) (buffer : Buffer) : Prop :=
  ∀ line ∈ content.headLines buffer.bytes, colonMark ∈ line

/-- A header line is read only in the state for headers, and it ends at the first line end. -/
theorem headerLine_eq_some {content : HttpContent} {text line : Bytes} :
    content.headerLine text = some line ↔ content.parseState = .kParseHeaders ∧
      ∃ finish, searchIdx crlf text = some finish ∧ text.take finish = line := by
  rw [headerLine]
  split
  · next hstate => simp [hstate]
  · next hstate => simp [hstate]

/-- With a header line in the text, the loop body consumes that line. -/
theorem bytesIteration_headerLine {content : HttpContent} {text line : Bytes}
    (hline : content.headerLine text = some line) :
    content.bytesIteration text = if colonMark ∈ line
      then .again { content with request := content.request.addHeader line } (text.drop (line.length + 2))
      else .finished true { content with parseState := .kParseGotCompleteRequest }
        (text.drop (line.length + 2)) := by
  obtain ⟨hstate, finish, hsearch, hcut⟩ := headerLine_eq_some.mp hline
  have hne : content.parseState ≠ .kParseRequestLine := by simp [hstate]
  have hlength : line.length = finish := hcut ▸ List.length_take_of_le (searchIdx_bound hsearch).1.le
  rw [bytesIteration_line (Or.inr hstate) hsearch, consumeLine, if_neg hne, hcut, hlength]

/-- The request line does not complete a request. -/
theorem requestLineBranch_completes {content : HttpContent} {line rest : Bytes}
    (hopen : content.getCompleteRequest = false) : (content.requestLineBranch line rest).completes = false := by
  rw [requestLineBranch]
  split
  · rfl
  · rfl
  · exact hopen

/-- The loop body completes a request exactly when it reads a header line without a colon. -/
theorem bytesIteration_completes {content : HttpContent} {text : Bytes}
    (hopen : content.getCompleteRequest = false) :
    (content.bytesIteration text).completes = true ↔
      ∃ line, content.headerLine text = some line ∧ colonMark ∉ line := by
  cases hline : content.headerLine text with
  | some line =>
    have hstate := (headerLine_eq_some.mp hline).1
    rw [bytesIteration_headerLine hline]
    by_cases hcolon : colonMark ∈ line
    · simp [hcolon, Iteration.completes, getCompleteRequest, hstate]
    · simp [hcolon, Iteration.completes, getCompleteRequest]
  | none =>
    have hnone : (content.bytesIteration text).completes = false := by
      cases hstate : content.parseState with
      | kParseHeaders =>
        have hsearch : searchIdx crlf text = none := by simpa [headerLine, hstate] using hline
        rw [bytesIteration_unterminated (Or.inr hstate) hsearch]
        exact hopen
      | kParseRequestLine =>
        cases hsearch : searchIdx crlf text with
        | none =>
          rw [bytesIteration_unterminated (Or.inl hstate) hsearch]
          exact hopen
        | some finish =>
          rw [bytesIteration_line (Or.inl hstate) hsearch, consumeLine, if_pos hstate]
          exact requestLineBranch_completes hopen
      | kParseGotCompleteRequest => simp [getCompleteRequest, hstate] at hopen
      | kParseBody =>
        rw [bytesIteration, hstate]
        exact hopen
      | kParseErrno =>
        rw [bytesIteration, hstate]
        exact hopen
    simp [hnone]

/-- The header line which the loop body reads, if any, is empty or has a colon. -/
def ReadsColon (body : HttpContent × Bytes) : Prop :=
  ∀ line, body.1.headerLine body.2 = some line → line ≠ [] → colonMark ∈ line

/-- Where no header line is read, none is without a colon. -/
theorem readsColon_of_none {body : HttpContent × Bytes} (h : body.1.headerLine body.2 = none) :
    ReadsColon body := by
  intro line hline
  rw [h] at hline
  cases hline

/-- A header line read is checked by itself. -/
theorem readsColon_iff {content : HttpContent} {text line : Bytes} (h : content.headerLine text = some line) :
    ReadsColon (content, text) ↔ (line ≠ [] → colonMark ∈ line) := by
  constructor
  · intro hreads
    exact hreads line h
  · intro hcolon line' hline'
    exact Option.some.inj (h.symm.trans hline') ▸ hcolon

/-- The header lines read by a loop all have a colon or are empty exactly when the lines up to
the first empty one have a colon. -/
theorem bodies_colon_iff {content : HttpContent} (hstate : content.parseState = .kParseHeaders) (count : ℕ)
    (text : Bytes) : (∀ body ∈ bodies count content text, ReadsColon body) ↔
      ∀ line ∈ (terminatedLines count text).takeWhile (· ≠ []), colonMark ∈ line := by
  induction count generalizing content text with
  | zero => simp [bodies, terminatedLines]
  | succ count ih =>
    rw [bodies, terminatedLines, List.forall_mem_cons]
    cases hsearch : searchIdx crlf text with
    | none =>
      have hread : ReadsColon (content, text) := readsColon_of_none (by simp [headerLine, hsearch])
      simp [bytesIteration_unterminated (Or.inr hstate) hsearch, hread]
    | some finish =>
      have hline : content.headerLine text = some (text.take finish) :=
        headerLine_eq_some.mpr ⟨hstate, finish, hsearch, rfl⟩
      have hlength : (text.take finish).length = finish := List.length_take_of_le (searchIdx_bound hsearch).1.le
      rw [bytesIteration_headerLine hline, hlength, readsColon_iff hline]
      by_cases hcolon : colonMark ∈ text.take finish
      · have hne : text.take finish ≠ [] := List.ne_nil_of_mem hcolon
        rw [if_pos hcolon, List.takeWhile_cons_of_pos (by simpa only [decide_eq_true_eq] using hne),
          List.forall_mem_cons]
        apply and_congr
        · exact ⟨fun _ => hcolon, fun h _ => h⟩
        · exact ih (by exact hstate) (text.drop (finish + 2))
      · rw [if_neg hcolon]
        by_cases hempty : text.take finish = []
        · rw [List.takeWhile_cons_of_neg (by simpa only [decide_eq_true_eq, not_not] using hempty)]
          exact iff_of_true ⟨fun hne => absurd hempty hne, List.forall_mem_nil _⟩ (List.forall_mem_nil _)
        · rw [List.takeWhile_cons_of_pos (by simpa only [decide_eq_true_eq] using hempty), List.forall_mem_cons]
          exact iff_of_false (fun h => hcolon (h.1 hempty)) (fun h => hcolon h.1)

/-- Outside the two states for lines no header line is read. -/
theorem readsColon_of_not_readsLines {content : HttpContent} (hstate : ¬ content.ReadsLines) (count : ℕ)
    (text : Bytes) : ∀ body ∈ bodies count content text, ReadsColon body := by
  have hread : ReadsColon (content, text) := readsColon_of_none (if_neg fun h => hstate (Or.inr h))
  induction count with
  | zero => exact List.forall_mem_nil _
  | succ count ih =>
    rw [bodies, List.forall_mem_cons]
    by_cases hcomplete : content.parseState = .kParseGotCompleteRequest
    · rw [bytesIteration_complete text hcomplete]
      exact ⟨hread, List.forall_mem_nil _⟩
    · have hstuck : ¬ content.Live := fun h => h.elim hstate hcomplete
      rw [bytesIteration_stuck text hstuck]
      exact ⟨hread, ih⟩

/-- The header lines read in a call all have a colon or are empty exactly when every line of the
head has a colon. -/
theorem callBodies_colon_iff (content : HttpContent) (buffer : Buffer) :
    (∀ body ∈ content.callBodies buffer, ReadsColon body) ↔ content.ColonInEveryLine buffer := by
  rw [callBodies, ColonInEveryLine, headLines, ← Buffer.length_bytes]
  cases hstate : content.parseState with
  | kParseHeaders => exact bodies_colon_iff hstate _ _
  | kParseRequestLine =>
    have hread : ReadsColon (content, buffer.bytes) := readsColon_of_none (by simp [headerLine, hstate])
    rw [bodies, terminatedLines, List.forall_mem_cons, and_iff_right hread]
    cases hsearch : searchIdx crlf buffer.bytes with
    | none => simp [bytesIteration_unterminated (Or.inl hstate) hsearch]
    | some finish =>
      rw [bytesIteration_line (Or.inl hstate) hsearch, consumeLine, if_pos hstate, requestLineBranch]
      cases hparse : content.request.parseRequestLine (buffer.bytes.take finish) with
      | error e => simp [hparse]
      | ok result =>
        obtain ⟨accepted, request⟩ := result
        cases accepted with
        | false => simp [hparse]
        | true =>
          simp only [hparse]
          exact bodies_colon_iff rfl _ _
  | kParseGotCompleteRequest =>
    exact iff_of_true (readsColon_of_not_readsLines (by simp [ReadsLines, hstate]) _ _) (List.forall_mem_nil _)
  | kParseBody =>
    exact iff_of_true (readsColon_of_not_readsLines (by simp [ReadsLines, hstate]) _ _) (List.forall_mem_nil _)
  | kParseErrno =>
    exact iff_of_true (readsColon_of_not_readsLines (by simp [ReadsLines, hstate]) _ _) (List.forall_mem_nil _)

/-- A call keeps heads and lines apart exactly when every line of the head has a colon. -/
theorem endsAtEmptyLine_iff (content : HttpContent) (buffer : Buffer) :
    content.EndsAtEmptyLine buffer ↔ content.ColonInEveryLine buffer := by
  rw [← callBodies_colon_iff]
  constructor
  · intro hends body hbody line hline hne
    by_contra hcolon
    have hstate := (headerLine_eq_some.mp hline).1
    have hopen : body.1.getCompleteRequest = false := by simp [getCompleteRequest, hstate]
    have hempty := hends.completed_empty body hbody hopen ((bytesIteration_completes hopen).mpr
      ⟨line, hline, hcolon⟩)
    exact hne (Option.some.inj (hline.symm.trans hempty))
  · intro hcolons
    constructor
    · intro body hbody hopen hcompletes
      obtain ⟨line, hline, hcolon⟩ := (bytesIteration_completes hopen).mp hcompletes
      cases line with
      | nil => exact hline
      | cons a rest => exact absurd (hcolons body hbody _ hline (List.cons_ne_nil a rest)) hcolon
    · intro body hbody line hline hne hcolon
      exact absurd (hcolons body hbody line hline hne) hcolon

end HttpContent

/-- What happens to a parser and its buffer. -/
inductive ParserAction where
  | feed (data : Bytes)
  | parse
  | reset (method : Method) (version : Version)

/-- A parser together with the buffer it reads from. -/
structure Parser where
  content : HttpContent
  buffer : Buffer

namespace Parser

/-- A fresh parser and an empty buffer. -/
def new (method : Method) (version : Version) : Parser := ⟨.new method version, .new⟩

/-- Input arrives, `ParseContent` is called and returns, or the content is reset. -/
def step (parser : Parser) : ParserAction → Option Parser
  | .feed data => some { parser with buffer := parser.buffer.append data }
  | .parse =>
    match parser.content.parseContent parser.buffer with
    | some (.returned _ content buffer) => some ⟨content, buffer⟩
    | _ => none
  | .reset method version => some { parser with content := parser.content.resetContentState method version }

/-- If the action is a call, heads end only at empty lines in it. -/
def HeadsEnd (parser : Parser) (action : ParserAction) : Prop :=
  action = .parse → parser.content.EndsAtEmptyLine parser.buffer

/-- If the action is a call, the nonempty header lines read in it have a colon. -/
def ColonLines (parser : Parser) (action : ParserAction) : Prop :=
  action = .parse → parser.content.ColonInEveryLine parser.buffer

/-- However the input is fed to the parser, heads end only at empty lines exactly when every
nonempty header line read has a colon. -/
theorem headsEnd_iff_colonLines (method : Method) (version : Version) (actions : List ParserAction) :
    Meets step HeadsEnd (new method version) actions ↔ Meets step ColonLines (new method version) actions := by
  apply meets_congr
  intro parser action
  exact imp_congr_right fun _ => HttpContent.endsAtEmptyLine_iff parser.content parser.buffer

/-- A request line, followed by a header line without a colon. -/
def colonlessHead : Bytes := ascii "GET / HTTP/1.1\r\nfoo\r\n"

/-- The line without a colon is taken as the end of the head, and the request is complete. -/
theorem headsEnd_colonlessHead :
    (∃ parser, run step (new .kGet .kUnknown) [.feed colonlessHead, .parse] = some parser ∧
      parser.content.getCompleteRequest = true) ∧
    ¬ Meets step HeadsEnd (new .kGet .kUnknown) [.feed colonlessHead, .parse] := by
  have hbytes : (Buffer.new.append colonlessHead).bytes = colonlessHead := by
    rw [Buffer.bytes_append, Buffer.bytes_new, List.nil_append]
  have hparse : (HttpContent.new .kGet .kUnknown).parseBytes (Buffer.new.append colonlessHead).bytes =
      some (.returned true ⟨⟨.kGet, ascii "/", [], .kHttp11, ∅⟩, .kParseGotCompleteRequest⟩ []) := by
    rw [hbytes]
    rfl
  obtain ⟨buffer, hcall, -⟩ := HttpContent.parseContent_of_parseBytes hparse
  constructor
  · have hstep : step ⟨.new .kGet .kUnknown, Buffer.new.append colonlessHead⟩ .parse =
        some ⟨⟨⟨.kGet, ascii "/", [], .kHttp11, ∅⟩, .kParseGotCompleteRequest⟩, buffer⟩ := by
      rw [step, hcall]
    exact ⟨_, run_cons_eq_some.mpr ⟨_, rfl, run_cons_eq_some.mpr ⟨_, hstep, rfl⟩⟩, rfl⟩
  · intro hheads
    have hends := (hheads.tail rfl).head rfl
    have hcolon := (HttpContent.endsAtEmptyLine_iff _ _).mp hends (ascii "foo") (by
      change ascii "foo" ∈ (HttpContent.new .kGet .kUnknown).headLines (Buffer.new.append colonlessHead).bytes
      rw [hbytes]
      decide)
    exact absurd hcolon (by decide)

end Parser

end WebServer.Http
