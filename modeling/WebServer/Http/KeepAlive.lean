import WebServer.Http.Isolation
import WebServer.Http.RequestLine

/-!
# The keep-alive decision

Two heads may spell the same `Connection` field in different ways. `DealWithRequest` looks the
field up under one spelling of its name and compares its value with one spelling of each token,
so the decision depends on the spelling. The spaces in front of the value were skipped by the
parser, those behind it belong to the value.
-/

namespace WebServer.Http

open WebServer.Foundation
open WebServer.Util (Bytes ascii crlf)

/-- An ASCII letter in lower case, any other byte as it is. -/
def lowerByte (b : UInt8) : UInt8 := if 65 ≤ b ∧ b ≤ 90 then b + 32 else b

/-- A text with its ASCII letters in lower case. -/
def asciiLower (text : Bytes) : Bytes := text.map lowerByte

/-- A head as it is cut into lines: the request line, the header lines, and the line that ends it. -/
structure CutHead where
  requestLine : Bytes
  fields : List Bytes
  last : Bytes
  requestLine_crlf : ¬ crlf <:+: requestLine
  fields_crlf : ∀ line ∈ fields, ¬ crlf <:+: line
  last_crlf : ¬ crlf <:+: last

/-- A spelling of the `Connection` field. -/
structure ConnectionField where
  name : Bytes
  before : ℕ
  value : Bytes
  after : ℕ
  name_lower : asciiLower name = ascii "connection"

/-- The line of the field. -/
def ConnectionField.text (field : ConnectionField) : Bytes :=
  field.name ++ colonMark :: (List.replicate field.before space ++ field.value ++ List.replicate field.after space)

namespace CutHead

/-- The text of the head. -/
def text (head : CutHead) : Bytes :=
  head.requestLine ++ (crlf ++ (head.fields.flatMap (· ++ crlf) ++ (head.last ++ crlf)))

/-- The heads differ at most in the case of the letters of one `Connection` field and in the spaces
around its value. -/
def Respelled (head head' : CutHead) : Prop :=
  ∃ front back, ∃ field field' : ConnectionField,
    head.fields = front ++ field.text :: back ∧ head'.fields = front ++ field'.text :: back ∧
      asciiLower field.value = asciiLower field'.value ∧ head'.requestLine = head.requestLine ∧
        head'.last = head.last

/-- The value of the last field whose name is exactly `Connection`. -/
def connectionToken (head : CutHead) : Bytes :=
  head.fields.foldl (fun token line => if line.take (line.idxOf colonMark) = ascii "Connection" then
    headerValue line (line.idxOf colonMark) else token) []

/-- The token that changes the decision in the version of the head. -/
def testedToken (head : CutHead) : Bytes :=
  if head.requestLine.getLast? = some 48 then ascii "Keep-Alive" else ascii "Close"

/-- The head has the token in the spelling with which it is compared. -/
def SpellsToken (head : CutHead) : Prop := head.connectionToken = head.testedToken

instance (head : CutHead) : Decidable head.SpellsToken := inferInstanceAs (Decidable (_ = _))

/-- A token as `AppendToBuffer` writes it is understood in a request. -/
def HonoursEmitted (head : CutHead) (request : HttpRequest) : Prop :=
  (head.connectionToken = ascii "close" → request.closeFlag = true) ∧
    (head.connectionToken = ascii "Keep-Alive" → request.closeFlag = false)

end CutHead

namespace HttpContent

/-- Header lines that are completed exactly at their end have all been added. -/
theorem request_of_fields {content content' : HttpContent} (hstate : content.parseState = .kParseHeaders)
    {fields : List Bytes} {last : Bytes} (hfields : ∀ line ∈ fields, ¬ crlf <:+: line) (hlast : ¬ crlf <:+: last)
    (hcall : content.parseBytes (fields.flatMap (· ++ crlf) ++ (last ++ crlf)) = some (.returned true content' []))
    (hcomplete : content'.getCompleteRequest = true) :
    content'.request = fields.foldl HttpRequest.addHeader content.request := by
  have hne : content.parseState ≠ .kParseRequestLine := by simp [hstate]
  induction fields generalizing content with
  | nil =>
    have hline := parseBytes_line (Or.inr hstate) hlast []
    rw [List.append_nil] at hline
    rw [List.flatMap_nil, List.nil_append, hline, consumeLine, if_neg hne] at hcall
    by_cases hcolon : colonMark ∈ last
    · rw [if_pos hcolon] at hcall
      -- the last line would be a field, and the parser would wait for another one
      have hreads : ReadsLines { content with request := content.request.addHeader last } := Or.inr hstate
      have hwaits := parseBytes_eq (Or.inl hreads) []
      rw [bytesIteration_unterminated hreads rfl] at hwaits
      obtain rfl : _ = content' := by simpa using hwaits.symm.trans hcall
      simp [getCompleteRequest, hstate] at hcomplete
    · rw [if_neg hcolon] at hcall
      cases hcall
      rfl
  | cons line fields ih =>
    obtain ⟨hfirst, hlater⟩ := List.forall_mem_cons.mp hfields
    have hline := parseBytes_line (Or.inr hstate) hfirst (fields.flatMap (· ++ crlf) ++ (last ++ crlf))
    rw [List.flatMap_cons, List.append_assoc, List.append_assoc, hline, consumeLine, if_neg hne] at hcall
    by_cases hcolon : colonMark ∈ line
    · rw [if_pos hcolon] at hcall
      exact @ih ⟨content.request.addHeader line, content.parseState⟩ hstate hlater hcall hne
    · rw [if_neg hcolon] at hcall
      have hrest : fields.flatMap (· ++ crlf) ++ (last ++ crlf) = [] := by
        injection hcall with hcall
        injection hcall
      simp [crlf] at hrest

/-- A completed head has an accepted request line, and its fields have been added to the request. -/
theorem completedRequest_text {method : Method} {version : Version} {head : CutHead} {request : HttpRequest}
    (h : (new method version).completedRequest head.text = some request) :
    ∃ base, (HttpRequest.new method version).parseRequestLine head.requestLine = .ok (true, base) ∧
      request = head.fields.foldl HttpRequest.addHeader base := by
  obtain ⟨content', hcall, hcomplete, rfl⟩ := completedRequest_eq_some h
  have hreads : (new method version).ReadsLines := Or.inl rfl
  have hstate : (new method version).parseState = .kParseRequestLine := rfl
  rw [CutHead.text, parseBytes_line hreads head.requestLine_crlf, consumeLine, if_pos hstate,
    requestLineBranch] at hcall
  cases hline : (new method version).request.parseRequestLine head.requestLine with
  | error e =>
    rw [hline] at hcall
    cases hcall
  | ok result =>
    obtain ⟨accepted, base⟩ := result
    rw [hline] at hcall
    cases accepted with
    | false => cases hcall
    | true => exact ⟨base, hline, request_of_fields rfl head.fields_crlf head.last_crlf hcall hcomplete⟩

end HttpContent

namespace HttpRequest

/-- The value found under a name is the one of the last field with this name. -/
theorem getHeader_foldl (fields : List Bytes) (base : HttpRequest) (name : Bytes) :
    (fields.foldl addHeader base).getHeader name =
      fields.foldl (fun token line => if line.take (line.idxOf colonMark) = name then
        headerValue line (line.idxOf colonMark) else token) (base.getHeader name) := by
  induction fields generalizing base with
  | nil => rfl
  | cons line fields ih =>
    rw [List.foldl_cons, List.foldl_cons, ih]
    congr 1
    by_cases hname : line.take (line.idxOf colonMark) = name
    · rw [if_pos hname, getHeader, addHeader, hname, Finmap.lookup_insert]
      rfl
    · rw [if_neg hname, getHeader, addHeader, Finmap.lookup_insert_of_ne _ (Ne.symm hname)]
      rfl

/-- Adding fields does not change the version. -/
theorem version_foldl (fields : List Bytes) (base : HttpRequest) :
    (fields.foldl addHeader base).version = base.version := by
  induction fields generalizing base with
  | nil => rfl
  | cons line fields ih => rw [List.foldl_cons, ih, addHeader]

end HttpRequest

namespace CutHead

/-- What the decision is made of: the version of the request line, and the token. -/
theorem version_and_token {method : Method} {version : Version} {head : CutHead} {request : HttpRequest}
    (h : (HttpContent.new method version).completedRequest head.text = some request) :
    (∃ written : WrittenVersion, request.version = written.version ∧
      head.requestLine.getLast? = written.text.getLast?) ∧
      request.getHeader (ascii "Connection") = head.connectionToken := by
  obtain ⟨base, hline, rfl⟩ := HttpContent.completedRequest_text h
  obtain ⟨found, target, written, htarget, htext⟩ := HttpRequest.exists_requestLineText hline
  have hread := HttpRequest.parseRequestLine_requestLineText (.new method version) found written htarget
  rw [← htext, hline] at hread
  obtain rfl := (Prod.mk.inj (Except.ok.inj hread)).2
  refine ⟨⟨written, HttpRequest.version_foldl _ _, ?_⟩, HttpRequest.getHeader_foldl _ _ _⟩
  have htail : requestLineText found target written = (methodName found ++ space :: (target ++ [space])) ++
    written.text := by
    simp [requestLineText]
  rw [htext, htail, List.getLast?_append]
  cases written <;> rfl

/-- The connection is closed exactly if an HTTP/1.1 head spells `Close` or an HTTP/1.0 head does not
spell `Keep-Alive`. -/
theorem closeFlag_eq {method : Method} {version : Version} {head : CutHead} {request : HttpRequest}
    (h : (HttpContent.new method version).completedRequest head.text = some request) :
    request.closeFlag = true ↔ (head.requestLine.getLast? = some 48 ↔ ¬ head.SpellsToken) := by
  obtain ⟨⟨written, hversion, hlast⟩, htoken⟩ := version_and_token h
  rw [SpellsToken, testedToken, HttpRequest.closeFlag, htoken, hversion, hlast]
  cases written with
  | http10 =>
    have hdigit : WrittenVersion.http10.text.getLast? = some 48 := rfl
    have hother : head.connectionToken = ascii "Close" → head.connectionToken ≠ ascii "Keep-Alive" := by
      intro hclose hkeep
      exact absurd (hclose.symm.trans hkeep) (by decide)
    simpa [hdigit, WrittenVersion.version] using hother
  | http11 =>
    have hdigit : WrittenVersion.http11.text.getLast? ≠ some 48 := by decide
    simp [hdigit, WrittenVersion.version]

/-- An HTTP/1.1 head whose field asks to close as `AppendToBuffer` writes it. -/
def EmitsClose (head : CutHead) : Prop := head.requestLine.getLast? ≠ some 48 ∧ head.connectionToken = ascii "close"

instance (head : CutHead) : Decidable head.EmitsClose := inferInstanceAs (Decidable (_ ∧ _))

/-- Two spellings of the field lead to the same decision if and only if both or none of the heads has
the token of its version as it is tested, and a token written by `AppendToBuffer` is understood
unless it is `close` in an HTTP/1.1 head. -/
theorem closeFlag_respelled_iff {method method' : Method} {version version' : Version} {head head' : CutHead}
    {request request' : HttpRequest} (hrespelled : head.Respelled head')
    (h : (HttpContent.new method version).completedRequest head.text = some request)
    (h' : (HttpContent.new method' version').completedRequest head'.text = some request') :
    (request.closeFlag = request'.closeFlag ↔ (head.SpellsToken ↔ head'.SpellsToken)) ∧
      (head.HonoursEmitted request ↔ ¬ head.EmitsClose) := by
  obtain ⟨-, -, -, -, -, -, -, hline, -⟩ := hrespelled
  have hflag := closeFlag_eq h
  have hflag' := closeFlag_eq h'
  rw [hline] at hflag'
  constructor
  · rw [Bool.eq_iff_iff, hflag, hflag']
    by_cases hdigit : head.requestLine.getLast? = some 48
    · simp only [hdigit, true_iff, not_iff_not]
    · simp only [hdigit, false_iff, not_not]
  · have hclose : head.connectionToken = ascii "close" → ¬ head.SpellsToken := by
      intro htoken hspells
      rw [SpellsToken, testedToken, htoken] at hspells
      split at hspells
      · exact absurd hspells (by decide)
      · exact absurd hspells (by decide)
    have hkeep : head.connectionToken = ascii "Keep-Alive" →
      (head.requestLine.getLast? = some 48 ↔ head.SpellsToken) := by
      intro htoken
      rw [SpellsToken, testedToken, htoken]
      by_cases hdigit : head.requestLine.getLast? = some 48
      · simp [hdigit]
      · rw [if_neg hdigit]
        exact iff_of_false hdigit (by decide)
    constructor
    · rintro ⟨hcloses, -⟩ ⟨hdigit, htoken⟩
      exact hdigit ((hflag.mp (hcloses htoken)).mpr (hclose htoken))
    · intro hemits
      refine ⟨fun htoken => hflag.mpr ?_, fun htoken => ?_⟩
      · have hdigit : head.requestLine.getLast? = some 48 := by
          by_contra hdigit
          exact hemits ⟨hdigit, htoken⟩
        exact iff_of_true hdigit (hclose htoken)
      · rw [← Bool.not_eq_true, hflag]
        intro hiff
        exact iff_not_self ((hkeep htoken).symm.trans hiff)

/-- `GET /` with a single field. -/
def fieldHead (version : WrittenVersion) (field : ConnectionField) (h : ¬ crlf <:+: field.text) : CutHead where
  requestLine := requestLineText .kGet (ascii "/") version
  fields := [field.text]
  last := []
  requestLine_crlf := by cases version <;> decide
  fields_crlf := List.forall_mem_singleton.mpr h
  last_crlf := by decide

/-- The spaces in front of the token do not matter. -/
theorem closeFlag_respelled_spaces :
    let head := fieldHead .http10 ⟨ascii "Connection", 1, ascii "Keep-Alive", 0, by decide⟩ (by decide)
    let head' := fieldHead .http10 ⟨ascii "Connection", 3, ascii "Keep-Alive", 0, by decide⟩ (by decide)
    ∃ request request', (HttpContent.new .kGet .kUnknown).completedRequest head.text = some request ∧
      (HttpContent.new .kGet .kUnknown).completedRequest head'.text = some request' ∧
        request.closeFlag = request'.closeFlag ∧ head.HonoursEmitted request := by
  intro head head'
  obtain ⟨request, hrequest⟩ : ∃ request, (HttpContent.new .kGet .kUnknown).completedRequest head.text =
    some request :=
    Option.isSome_iff_exists.mp (by decide +kernel)
  obtain ⟨request', hrequest'⟩ : ∃ request, (HttpContent.new .kGet .kUnknown).completedRequest head'.text =
    some request :=
    Option.isSome_iff_exists.mp (by decide +kernel)
  have hrespelled : head.Respelled head' := ⟨[], [], _, _, rfl, rfl, rfl, rfl, rfl⟩
  have hiff := closeFlag_respelled_iff hrespelled hrequest hrequest'
  exact ⟨request, request', hrequest, hrequest', hiff.1.mpr (by decide +kernel), hiff.2.mpr (by decide +kernel)⟩

/-- `Connection: close`, a line of every response that closes, keeps the connection open when a client
sends it, and `Connection: Close` does not. -/
theorem closeFlag_respelled_close :
    let head := fieldHead .http11 ⟨ascii "Connection", 1, ascii "close", 0, by decide⟩ (by decide)
    let head' := fieldHead .http11 ⟨ascii "Connection", 1, ascii "Close", 0, by decide⟩ (by decide)
    ascii "\r\nConnection: close\r\n" <:+: (HttpResponse.new true 200).text ∧ head.Respelled head' ∧
      ((HttpContent.new .kGet .kUnknown).completedRequest head.text).map HttpRequest.closeFlag = some false ∧
      ((HttpContent.new .kGet .kUnknown).completedRequest head'.text).map HttpRequest.closeFlag = some true := by
  intro head head'
  exact ⟨by decide +kernel, ⟨[], [], _, _, rfl, rfl, by decide, rfl, rfl⟩, by decide +kernel, by decide +kernel⟩

end CutHead

end WebServer.Http
