import WebServer.Http.Incremental
import WebServer.Http.RequestLine

/-!
# Parsing undoes writing

`RequestHead` is a request as a client writes it, with the conditions under which its text
can be read back. The separators decide the conditions: the path ends at the first space or
question mark, the query at the first space, a header name at the first colon, the spaces
behind the colon are skipped, and every line ends at the first CR LF. A lone CR or LF may
stand in any field.
-/

namespace WebServer.Http

open WebServer.Foundation
open WebServer.Util (Bytes Buffer ascii crlf)

/-- A header line that can be read back. -/
structure HeaderLine where
  name : Bytes
  spaces : ℕ
  value : Bytes
  name_colon : colonMark ∉ name
  name_crlf : ¬ crlf <:+: name
  value_space : value.head? ≠ some space
  value_crlf : ¬ crlf <:+: value

namespace HeaderLine

/-- The text of the line, without its line end. -/
def text (line : HeaderLine) : Bytes :=
  line.name ++ colonMark :: (List.replicate line.spaces space ++ line.value)

/-- The entry of the header map. -/
def entry (line : HeaderLine) : Sigma fun _ : Bytes => Bytes := ⟨line.name, line.value⟩

end HeaderLine

/-- A request head that can be read back, with one line for each entry of its header map. -/
structure RequestHead where
  method : Method
  path : Bytes
  query : Option Bytes
  version : WrittenVersion
  headers : HeaderMap
  lines : List HeaderLine
  path_space : space ∉ path
  path_question : questionMark ∉ path
  path_crlf : ¬ crlf <:+: path
  query_space : ∀ q ∈ query, space ∉ q
  query_crlf : ∀ q ∈ query, ¬ crlf <:+: q
  lines_headers : headers.entries = (lines.map HeaderLine.entry : Multiset _)

namespace RequestHead

/-- The target: the path, and the query behind a question mark if there is one. -/
def target (head : RequestHead) : Bytes :=
  match head.query with
  | some query => head.path ++ questionMark :: query
  | none => head.path

/-- The request line, without its line end. -/
def requestLine (head : RequestHead) : Bytes :=
  methodName head.method ++ space :: (head.target ++ space :: head.version.text)

/-- The text of the whole head. -/
def text (head : RequestHead) : Bytes :=
  head.requestLine ++ crlf ++ head.lines.flatMap (fun line => line.text ++ crlf) ++ crlf

/-- The request a reader of the head should arrive at. -/
def request (head : RequestHead) : HttpRequest :=
  ⟨head.method, head.path, head.query.getD [], head.version.version, head.headers⟩

end RequestHead

/-- The separators and the version are not part of a line end. -/
theorem crlf_version (version : WrittenVersion) : ¬ crlf <:+: version.text := by cases version <;> decide

/-- The name of a method contains no line end. -/
theorem crlf_methodName (method : Method) : ¬ crlf <:+: methodName method := by
  cases method <;> decide

namespace HeaderLine

/-- No line end stands inside the line. -/
theorem crlf_text (line : HeaderLine) : ¬ crlf <:+: line.text := by
  have hspaces : ¬ crlf <:+: List.replicate line.spaces space ++ line.value := by
    induction line.spaces with
    | zero => exact line.value_crlf
    | succ spaces ih =>
      have hempty : ¬ crlf <:+: ([] : Bytes) := by decide
      exact not_infix_separated (by decide) (by decide) hempty ih
  exact not_infix_separated (by decide) (by decide) line.name_crlf hspaces

/-- The line is split at its first colon, and the spaces behind the colon are skipped. -/
theorem addHeader_text (line : HeaderLine) (req : HttpRequest) :
    req.addHeader line.text = { req with headers := req.headers.insert line.name line.value } := by
  have hcolon : line.text.idxOf colonMark = line.name.length := by
    rw [text, List.idxOf_append_of_notMem line.name_colon, List.idxOf_cons_self]
    rfl
  have hname : line.text.take line.name.length = line.name := List.take_left
  have hbehind : line.text.drop (line.name.length + 1) = List.replicate line.spaces space ++ line.value := by
    rw [text, ← List.drop_drop, List.drop_left]
    rfl
  have hvalue : line.value.dropWhile (· == space) = line.value := by
    cases hcases : line.value with
    | nil => rfl
    | cons first rest =>
      have hfirst : first ≠ space := fun h => line.value_space (by rw [hcases, h]; rfl)
      exact List.dropWhile_cons_of_neg (by simpa using hfirst)
  have hskip : (List.replicate line.spaces space ++ line.value).dropWhile (· == space) = line.value := by
    rw [List.dropWhile_append_of_pos fun b hb => by simp [List.eq_of_mem_replicate hb], hvalue]
  rw [HttpRequest.addHeader, hcolon, hname, headerValue, hbehind, hskip]

end HeaderLine

namespace RequestHead

/-- The target contains no space. -/
theorem space_notMem_target (head : RequestHead) : space ∉ head.target := by
  cases hquery : head.query with
  | none =>
    rw [target, hquery]
    exact head.path_space
  | some query =>
    simp only [target, hquery, List.mem_append, List.mem_cons]
    rintro (hpath | hmark | hin)
    · exact head.path_space hpath
    · exact absurd hmark (by decide)
    · exact head.query_space query hquery hin

/-- No line end stands inside the target. -/
theorem crlf_target (head : RequestHead) : ¬ crlf <:+: head.target := by
  cases hquery : head.query with
  | none =>
    rw [target, hquery]
    exact head.path_crlf
  | some query =>
    rw [target, hquery]
    exact not_infix_separated (by decide) (by decide) head.path_crlf (head.query_crlf query hquery)

/-- No line end stands inside the request line. -/
theorem crlf_requestLine (head : RequestHead) : ¬ crlf <:+: head.requestLine :=
  not_infix_separated (by decide) (by decide) (crlf_methodName head.method)
    (not_infix_separated (by decide) (by decide) head.crlf_target (crlf_version head.version))

end RequestHead

namespace HttpRequest

/-- The target of a head is split into its path and its query. -/
theorem split_target (head : RequestHead) : head.target.takeWhile (· ≠ questionMark) = head.path ∧
    (if questionMark ∈ head.target then (head.target.dropWhile (· ≠ questionMark)).drop 1 else []) =
      head.query.getD [] := by
  cases hquery : head.query with
  | none =>
    have htarget : head.target = head.path := by rw [RequestHead.target, hquery]
    have hpath : ∀ b ∈ head.path, decide (b ≠ questionMark) = true :=
      fun b hb => decide_eq_true fun h => head.path_question (h ▸ hb)
    rw [htarget, if_neg head.path_question]
    exact ⟨List.takeWhile_eq_self_iff.mpr hpath, rfl⟩
  | some query =>
    have htarget : head.target = head.path ++ questionMark :: query := by rw [RequestHead.target, hquery]
    have hmark : questionMark ∈ head.target := htarget ▸ List.mem_append_right _ List.mem_cons_self
    rw [if_pos hmark, htarget, takeWhile_separator head.path_question, dropWhile_separator head.path_question]
    exact ⟨rfl, rfl⟩

/-- The request line of a head is read back. -/
theorem parseRequestLine_text (req : HttpRequest) (head : RequestHead) (hfresh : req.query = []) :
    req.parseRequestLine head.requestLine = .ok (true, { head.request with headers := req.headers }) := by
  have hread := parseRequestLine_requestLineText req head.method head.version head.space_notMem_target
  obtain ⟨hpath, hquery⟩ := split_target head
  rw [hpath, hfresh, hquery] at hread
  exact hread

end HttpRequest

/-- Inserting the entries one by one, with keys that are all different and new, adds them all. -/
theorem entries_foldl_insert (lines : List HeaderLine) (headers : HeaderMap)
    (hnew : ∀ line ∈ lines, line.name ∉ headers) (hkeys : (lines.map HeaderLine.name).Nodup) :
    (lines.foldl (fun found line => found.insert line.name line.value) headers).entries =
      (lines.map HeaderLine.entry : Multiset _) + headers.entries := by
  induction lines generalizing headers with
  | nil => exact (Multiset.zero_add _).symm
  | cons line lines ih =>
    rw [List.map_cons, List.nodup_cons] at hkeys
    have hlater : ∀ other ∈ lines, other.name ∉ headers.insert line.name line.value := by
      intro other hother hin
      rcases Finmap.mem_insert.mp hin with hsame | hold
      · exact hkeys.1 (hsame ▸ List.mem_map_of_mem hother)
      · exact hnew other (List.mem_cons_of_mem line hother) hold
    rw [List.foldl_cons, ih _ hlater hkeys.2, Finmap.entries_insert_of_notMem (hnew line List.mem_cons_self),
      List.map_cons, ← Multiset.cons_coe, Multiset.cons_add, Multiset.add_cons]
    rfl

namespace RequestHead

/-- Inserting the lines of a head one by one gives its header map. -/
theorem foldl_insert_lines (head : RequestHead) :
    head.lines.foldl (fun found line => found.insert line.name line.value) ∅ = head.headers := by
  have hkeys : (head.lines.map HeaderLine.name).Nodup := by
    have hnodup := head.headers.nodupKeys
    rw [head.lines_headers, Multiset.coe_nodupKeys, List.NodupKeys, List.keys, List.map_map] at hnodup
    exact hnodup
  apply Finmap.ext
  rw [entries_foldl_insert head.lines ∅ (fun _ _ => Finmap.notMem_empty) hkeys, head.lines_headers]
  exact Multiset.add_zero _

end RequestHead

namespace HttpContent

/-- The header lines are consumed one by one, and the empty line behind them ends the call. -/
theorem parseBytes_headerLines {content : HttpContent} (hstate : content.parseState = .kParseHeaders)
    (lines : List HeaderLine) (rest : Bytes) :
    content.parseBytes (lines.flatMap (fun line => line.text ++ crlf) ++ (crlf ++ rest)) =
      some (.returned true
        ⟨{ content.request with
            headers := lines.foldl (fun found line => found.insert line.name line.value) content.request.headers },
          .kParseGotCompleteRequest⟩ rest) := by
  have hne : content.parseState ≠ .kParseRequestLine := by simp [hstate]
  induction lines generalizing content with
  | nil =>
    have hempty : ¬ crlf <:+: ([] : Bytes) := by decide
    have hline := parseBytes_line (Or.inr hstate) hempty rest
    rw [consumeLine, if_neg hne, if_neg List.not_mem_nil] at hline
    exact hline
  | cons line lines ih =>
    have hline := parseBytes_line (Or.inr hstate) line.crlf_text
      (lines.flatMap (fun line => line.text ++ crlf) ++ (crlf ++ rest))
    have hcolon : colonMark ∈ line.text := List.mem_append_right _ List.mem_cons_self
    rw [consumeLine, if_neg hne, if_pos hcolon, line.addHeader_text] at hline
    rw [List.flatMap_cons, List.append_assoc, List.append_assoc, hline]
    exact ih hstate hne

/-- A fresh parser takes everything but the headers from the request line. -/
theorem consumeLine_requestLine (head : RequestHead) (method : Method) (version : Version) (rest : Bytes) :
    (new method version).consumeLine head.requestLine rest =
      .again ⟨{ head.request with headers := ∅ }, .kParseHeaders⟩ rest := by
  have hstate : (new method version).parseState = .kParseRequestLine := rfl
  rw [consumeLine, if_pos hstate, requestLineBranch, HttpRequest.parseRequestLine_text _ head rfl]
  rfl

/-- On the readable bytes, the text of a head is parsed to its request. -/
theorem parseBytes_text (head : RequestHead) (method : Method) (version : Version) (rest : Bytes) :
    (new method version).parseBytes (head.text ++ rest) =
      some (.returned true ⟨head.request, .kParseGotCompleteRequest⟩ rest) := by
  have hsplit : head.text ++ rest = head.requestLine ++ (crlf ++
      (head.lines.flatMap (fun line => line.text ++ crlf) ++ (crlf ++ rest))) := by
    simp only [RequestHead.text, List.append_assoc]
  have hfresh : (new method version).ReadsLines := Or.inl rfl
  rw [hsplit, parseBytes_line hfresh head.crlf_requestLine, consumeLine_requestLine]
  change parseBytes _ _ = _
  rw [parseBytes_headerLines rfl]
  change some (ParseOutcome.returned true
    ⟨{ head.request with headers := head.lines.foldl _ ∅ }, .kParseGotCompleteRequest⟩ rest) = _
  rw [head.foldl_insert_lines]
  rfl

/-- A fresh parser reads back every head that is written to its buffer, completes the request,
and leaves what follows the head in the buffer. -/
theorem parseContent_text (head : RequestHead) (method : Method) (version : Version) (rest : Bytes)
    (buffer : Buffer) (hbuffer : buffer.bytes = head.text ++ rest) :
    ∃ buffer', (new method version).parseContent buffer =
        some (.returned true ⟨head.request, .kParseGotCompleteRequest⟩ buffer') ∧ buffer'.bytes = rest := by
  apply parseContent_of_parseBytes
  rw [hbuffer]
  exact parseBytes_text head method version rest

/-- `GET /a?b HTTP/1.1` with a header whose value ends in a lone CR. -/
def sampleHead : RequestHead where
  method := .kGet
  path := ascii "/a"
  query := some (ascii "b")
  version := .http11
  headers := Finmap.singleton (ascii "Host") [120, 13]
  lines := [{
    name := ascii "Host", spaces := 2, value := [120, 13]
    name_colon := by decide, name_crlf := by decide, value_space := by decide, value_crlf := by decide }]
  path_space := by decide
  path_question := by decide
  path_crlf := by decide
  query_space := by decide
  query_crlf := by decide
  lines_headers := rfl

/-- The sample head, followed by the beginning of another request. -/
theorem parseContent_sampleHead :
    ∃ buffer', (new .kPut .kUnknown).parseContent (Buffer.new.append (sampleHead.text ++ ascii "GET")) =
        some (.returned true ⟨⟨.kGet, ascii "/a", ascii "b", .kHttp11, Finmap.singleton (ascii "Host") [120, 13]⟩,
          .kParseGotCompleteRequest⟩ buffer') ∧ buffer'.bytes = ascii "GET" :=
  parseContent_text sampleHead .kPut .kUnknown (ascii "GET") _ (by simp)

end HttpContent

end WebServer.Http
