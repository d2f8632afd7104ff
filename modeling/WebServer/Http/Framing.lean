import WebServer.Foundation.Lines
import WebServer.Http.Decimal

/-!
# Responses can be told apart

A reader of a stream of responses takes each head up to the first empty line, and then as
many bytes of body as `Content-Length` says, or all remaining bytes when there is no such
field. It gets back what was written: a body may contain anything, also what looks like a
head, because it is never searched.
-/

namespace WebServer.Http

open WebServer.Foundation
open WebServer.Util (Bytes Buffer ascii crlf)

/-- What a reader learns from a response. -/
structure ResponseFields where
  statusCode : ℤ
  statusMessage : Bytes
  type : Bytes
  body : Bytes
deriving DecidableEq

/-- The status code and the status message of a status line. -/
def readStatusLine (line : Bytes) : Option (ℤ × Bytes) :=
  match line.dropPrefix? (ascii "HTTP/1.1 ") with
  | none => none
  | some status =>
    (readDecimal (status.take (status.idxOf space))).map fun statusCode =>
      (statusCode, status.drop (status.idxOf space + 1))

/-- The value of the first field with this name. -/
def fieldValue (name : Bytes) (lines : List Bytes) : Option Bytes :=
  lines.findSome? fun line => line.dropPrefix? (name ++ ascii ": ")

/-- The length of the body, when the head declares one that is present, and all that is there
otherwise. -/
def bodyLength (lines : List Bytes) (rest : Bytes) : Option ℕ :=
  match fieldValue (ascii "Content-Length") lines with
  | none => some rest.length
  | some value => (readDigits value).filter (· ≤ rest.length)

/-- Read one response off a stream. -/
def readResponse (text : Bytes) : Option (ResponseFields × Bytes) := do
  let (lines, rest) ← readBlock crlf text.length text
  let (statusCode, statusMessage) ← readStatusLine (← lines.head?)
  let type ← fieldValue (ascii "Content-Type") lines.tail
  let length ← bodyLength lines.tail rest
  return (⟨statusCode, statusMessage, type, rest.take length⟩, rest.drop length)

/-- Read at most `fuel` responses, up to the end of the stream. -/
def readResponses : ℕ → Bytes → Option (List ResponseFields)
  | _, [] => some []
  | 0, _ :: _ => none
  | fuel + 1, first :: rest =>
    (readResponse (first :: rest)).bind fun (fields, later) => (readResponses fuel later).map (fields :: ·)

/-- Read the responses of a whole stream. -/
def readStream (text : Bytes) : Option (List ResponseFields) := readResponses text.length text

namespace HttpResponse

/-- What a reader should learn from the response. -/
def fields (response : HttpResponse) : ResponseFields :=
  ⟨response.statusCode, response.statusMessage, response.type, response.body⟩

/-- The status code is an `int`, and no line end stands in the status message and in the type. -/
structure Framed (response : HttpResponse) : Prop where
  statusCode : -2147483648 ≤ response.statusCode ∧ response.statusCode < 2147483648
  statusMessage : ¬ crlf <:+: response.statusMessage
  type : ¬ crlf <:+: response.type

/-- The status line, without its line end. -/
def statusLine (response : HttpResponse) : Bytes :=
  ascii "HTTP/1.1 " ++ (decimal response.statusCode ++ space :: response.statusMessage)

/-- The lines which say where the body ends. -/
def framingLines (response : HttpResponse) : List Bytes :=
  if response.closeConnection then [ascii "Connection: close"]
  else [ascii "Content-Length: " ++ decimal response.body.length, ascii "Connection: Keep-Alive"]

/-- The header lines, without their line ends. -/
def headerLines (response : HttpResponse) : List Bytes :=
  response.framingLines ++ [ascii "Content-Type: " ++ response.type, ascii "Server: " ++ serverName]

/-- Text that fits the array is not cut off. -/
theorem formatted_of_length_le {text : Bytes} (h : text.length ≤ 31) : formatted text = text :=
    List.take_of_length_le h

/-- The text of a response is its head, with nothing cut off, and its body. -/
theorem text_eq_block {response : HttpResponse} (h : response.Framed) (hsize : response.body.length < 2147483648) :
    response.text = blockText crlf (response.statusLine :: response.headerLines) ++ response.body := by
  have hstatus : formatted (ascii "HTTP/1.1 " ++ decimal response.statusCode ++ ascii " ") =
      ascii "HTTP/1.1 " ++ decimal response.statusCode ++ ascii " " := by
    apply formatted_of_length_le
    have hdigits := length_decimal_le h.statusCode
    rw [List.length_append, List.length_append]
    change 9 + _ + 1 ≤ 31
    omega
  have hlength : formatted (ascii "Content-Length: " ++ decimal response.body.length ++ crlf) =
      ascii "Content-Length: " ++ decimal response.body.length ++ crlf := by
    apply formatted_of_length_le
    have hdigits := length_decimal_le (n := response.body.length) (by omega)
    rw [List.length_append, List.length_append]
    change 16 + _ + 2 ≤ 31
    omega
  have hspace : ascii " " = [space] := rfl
  have hkeep : ascii "Connection: Keep-Alive\r\n" = ascii "Connection: Keep-Alive" ++ crlf := rfl
  have hclosing : ascii "Connection: close\r\n" = ascii "Connection: close" ++ crlf := rfl
  rw [text, appendToBuffer, hstatus, hlength, hspace, hkeep, hclosing]
  cases hclose : response.closeConnection <;>
    simp only [hclose, if_true, Bool.false_eq_true, if_false, Buffer.bytes_append, Buffer.bytes_new, blockText,
      statusLine,
      headerLines, framingLines, List.flatMap_cons, List.flatMap_nil, List.cons_append, List.nil_append,
      List.append_assoc, List.append_nil]

/-- Text without a CR contains no line end. -/
theorem crlf_of_notMem {text : Bytes} (h : 13 ∉ text) : ¬ crlf <:+: text := fun hinside =>
  h (hinside.subset (by decide))

/-- A name and a value make a line without a line end inside. -/
theorem crlf_separated {name value : Bytes} (hname : 13 ∉ name) (hvalue : ¬ crlf <:+: value) :
    ¬ crlf <:+: name ++ space :: value :=
  not_infix_separated (by decide) (by decide) (crlf_of_notMem hname) hvalue

/-- No written number contains a CR. -/
theorem cr_notMem_decimal (n : ℤ) : 13 ∉ decimal n := notMem_decimal (by decide) (by decide) n

/-- The lines of a head are not empty, and contain no line end. -/
theorem headLines_clean {response : HttpResponse} (h : response.Framed) :
    ∀ line ∈ response.statusLine :: response.headerLines, line ≠ [] ∧ ¬ crlf <:+: line := by
  have hcode : 13 ∉ ascii "HTTP/1.1 " ++ decimal response.statusCode := by
    rw [List.mem_append, not_or]
    exact ⟨by decide, cr_notMem_decimal _⟩
  have hstatus : response.statusLine = (ascii "HTTP/1.1 " ++ decimal response.statusCode) ++
    space :: response.statusMessage :=
    (List.append_assoc _ _ _).symm
  have hlength : 13 ∉ ascii "Content-Length: " ++ decimal response.body.length := by
    rw [List.mem_append, not_or]
    exact ⟨by decide, cr_notMem_decimal _⟩
  have hframing : ∀ line ∈ response.framingLines, line ≠ [] ∧ ¬ crlf <:+: line := by
    rw [framingLines]
    split
    · exact List.forall_mem_singleton.mpr ⟨by decide, crlf_of_notMem (by decide)⟩
    · exact List.forall_mem_cons.mpr ⟨⟨by simp [ascii], crlf_of_notMem hlength⟩,
        List.forall_mem_singleton.mpr ⟨by decide, crlf_of_notMem (by decide)⟩⟩
  rw [List.forall_mem_cons, headerLines, List.forall_mem_append, List.forall_mem_cons, List.forall_mem_singleton]
  refine ⟨⟨by simp [hstatus], hstatus ▸ crlf_separated hcode h.statusMessage⟩, hframing,
    ⟨by simp [ascii], ?_⟩, by decide, crlf_of_notMem (by decide)⟩
  have htype : ascii "Content-Type: " ++ response.type = ascii "Content-Type:" ++ space :: response.type := rfl
  rw [htype]
  exact crlf_separated (by decide) h.type

/-- The status line is read back. -/
theorem readStatusLine_statusLine (response : HttpResponse) :
    readStatusLine response.statusLine = some (response.statusCode, response.statusMessage) := by
  have hprefix : response.statusLine.dropPrefix? (ascii "HTTP/1.1 ") =
      some (decimal response.statusCode ++ space :: response.statusMessage) :=
    List.dropPrefix?_append_of_beq _ (beq_self_eq_true _)
  have hspace : (decimal response.statusCode ++ space :: response.statusMessage).idxOf space =
      (decimal response.statusCode).length := by
    rw [List.idxOf_append_of_notMem (notMem_decimal (by decide) (by decide) _), List.idxOf_cons_self, Nat.add_zero]
  simp only [readStatusLine, hprefix, hspace, List.take_left, readDecimal_decimal, Option.map_some,
    Option.some.injEq,
    Prod.mk.injEq, true_and]
  rw [← List.drop_drop, List.drop_left]
  rfl

/-- The value of a field of this name is found in its line. -/
theorem dropPrefix_same (name value : Bytes) : (name ++ value).dropPrefix? name = some value :=
  List.dropPrefix?_append_of_beq _ (beq_self_eq_true _)

/-- A line with another name has no value for this one. -/
theorem dropPrefix_other {name other : Bytes} (hname : ¬ name <+: other) (hother : ¬ other <+: name)
    (value : Bytes) :
    (other ++ value).dropPrefix? name = none := by
  rw [Option.eq_none_iff_forall_ne_some]
  intro rest hrest
  obtain ⟨found, hfound, hname'⟩ := List.dropPrefix?_eq_some_iff.mp hrest
  obtain rfl := eq_of_beq hname'
  rcases List.prefix_or_prefix_of_prefix ⟨rest, hfound.symm⟩ (List.prefix_append other value) with h | h
  · exact hname h
  · exact hother h

/-- The body type is read back. -/
theorem fieldValue_type (response : HttpResponse) :
    fieldValue (ascii "Content-Type") response.headerLines = some response.type := by
  have hname : ascii "Content-Type" ++ ascii ": " = ascii "Content-Type: " := rfl
  have hlength (value : Bytes) : (ascii "Content-Length: " ++ value).dropPrefix? (ascii "Content-Type: ") = none :=
    dropPrefix_other (by decide) (by decide) value
  have hclose : (ascii "Connection: close").dropPrefix? (ascii "Content-Type: ") = none := by decide
  have hkeep : (ascii "Connection: Keep-Alive").dropPrefix? (ascii "Content-Type: ") = none := by decide
  rw [fieldValue, hname, headerLines, framingLines]
  split
  · simp only [List.cons_append, List.nil_append, List.findSome?_cons, hclose, dropPrefix_same]
  · simp only [List.cons_append, List.nil_append, List.findSome?_cons, hlength, hkeep, dropPrefix_same]

/-- A response that keeps the connection open declares the length of its body. -/
theorem fieldValue_length {response : HttpResponse} (h : response.closeConnection = false) :
    fieldValue (ascii "Content-Length") response.headerLines = some (digits response.body.length) := by
  have hname : ascii "Content-Length" ++ ascii ": " = ascii "Content-Length: " := rfl
  simp only [fieldValue, hname, headerLines, framingLines, h, Bool.false_eq_true, if_false, List.cons_append,
    List.findSome?_cons, dropPrefix_same, decimal_natCast]

/-- A response that closes the connection does not declare the length of its body. -/
theorem fieldValue_close {response : HttpResponse} (h : response.closeConnection = true) :
    fieldValue (ascii "Content-Length") response.headerLines = none := by
  have hname : ascii "Content-Length" ++ ascii ": " = ascii "Content-Length: " := rfl
  have hclose : (ascii "Connection: close").dropPrefix? (ascii "Content-Length: ") = none := by decide
  have htype : (ascii "Content-Type: " ++ response.type).dropPrefix? (ascii "Content-Length: ") = none :=
    dropPrefix_other (by decide) (by decide) _
  have hserver : (ascii "Server: " ++ serverName).dropPrefix? (ascii "Content-Length: ") = none := by decide
  simp only [fieldValue, hname, headerLines, framingLines, h, if_true, List.cons_append, List.nil_append,
    List.findSome?_cons, List.findSome?_nil, hclose, htype, hserver]

/-- The body of a response ends where it should: within what follows, if the connection is kept
open, and at the end of the stream otherwise. -/
theorem bodyLength_headerLines (response : HttpResponse) {later : Bytes}
    (hlater : response.closeConnection = true → later = []) :
    bodyLength response.headerLines (response.body ++ later) = some response.body.length := by
  rw [bodyLength]
  cases hclose : response.closeConnection with
  | true =>
    obtain rfl := hlater hclose
    rw [fieldValue_close hclose, List.append_nil]
  | false =>
    simp [fieldValue_length hclose, readDigits_digits]

/-- A response is read off the stream. -/
theorem readResponse_text {response : HttpResponse} (h : response.Framed)
    (hsize : response.body.length < 2147483648) {later : Bytes}
    (hlater : response.closeConnection = true → later = []) :
    readResponse (response.text ++ later) = some (response.fields, later) := by
  have hblock : readBlock crlf (response.text ++ later).length (response.text ++ later) =
      some (response.statusLine :: response.headerLines, response.body ++ later) := by
    rw [text_eq_block h hsize, List.append_assoc]
    apply readBlock_blockText (by decide) (headLines_clean h)
    rw [List.length_append]
    exact Nat.lt_add_right _ (length_lt_blockText (by decide) _)
  simp only [readResponse, hblock, Option.bind_eq_bind, Option.bind_some, List.head?_cons, List.tail_cons,
    readStatusLine_statusLine, fieldValue_type, bodyLength_headerLines response hlater, List.take_left,
      List.drop_left]
  rfl

/-- A response that fits is not empty. -/
theorem text_ne_nil {response : HttpResponse} (h : response.Framed) (hsize : response.body.length < 2147483648) :
    response.text ≠ [] := by
  rw [text_eq_block h hsize, blockText_cons, statusLine]
  simp [ascii]

/-- A stream is at least as long as each of its responses. -/
theorem length_text_le {responses : List HttpResponse} {response : HttpResponse} (h : response ∈ responses) :
    response.text.length ≤ (responses.map text).flatten.length := by
  have hmem : response.text ∈ responses.map text := List.mem_map_of_mem h
  exact (List.sublist_flatten_of_mem hmem).length_le

/-- A stream has at least as many bytes as responses. -/
theorem length_le_texts {responses : List HttpResponse} (h : ∀ response ∈ responses, response.text ≠ []) :
    responses.length ≤ (responses.map text).flatten.length := by
  induction responses with
  | nil => exact Nat.zero_le _
  | cons response responses ih =>
    obtain ⟨hnonempty, hlater⟩ := List.forall_mem_cons.mp h
    have hpos : 0 < response.text.length := List.length_pos_iff.mpr hnonempty
    have hcount := ih hlater
    rw [List.map_cons, List.flatten_cons, List.length_append, List.length_cons]
    omega

/-- Reading the responses of a stream starts with the first one. -/
theorem readResponses_text {response : HttpResponse} (h : response.Framed)
    (hsize : response.body.length < 2147483648) {later : Bytes}
    (hlater : response.closeConnection = true → later = [])
    (fuel : ℕ) :
    readResponses (fuel + 1) (response.text ++ later) = (readResponses fuel later).map (response.fields :: ·) := by
  have hread := readResponse_text h hsize hlater
  obtain ⟨first, rest, htext⟩ := List.exists_cons_of_ne_nil (text_ne_nil h hsize)
  rw [htext, List.cons_append] at hread ⊢
  rw [readResponses, hread]
  rfl

/-- The responses are read off the stream one after the other, if only the last one may close the
connection. -/
theorem readResponses_texts {responses : List HttpResponse} (hframed : ∀ response ∈ responses, response.Framed)
    (hsize : ∀ response ∈ responses, response.body.length < 2147483648)
    (hopen : ∀ response ∈ responses.dropLast, response.closeConnection = false) {fuel : ℕ}
    (hfuel : responses.length ≤ fuel) :
    readResponses fuel (responses.map text).flatten = some (responses.map fields) := by
  induction responses generalizing fuel with
  | nil => exact readResponses.eq_1 fuel
  | cons response responses ih =>
    obtain ⟨fuel, rfl⟩ := Nat.exists_eq_add_one_of_ne_zero (Nat.ne_zero_of_lt hfuel)
    obtain ⟨hframe, hframed⟩ := List.forall_mem_cons.mp hframed
    obtain ⟨hbody, hsize⟩ := List.forall_mem_cons.mp hsize
    have hlater : response.closeConnection = true → (responses.map text).flatten = [] := by
      intro hclose
      cases responses with
      | nil => rfl
      | cons next responses =>
        have hkeeps := hopen response List.mem_cons_self
        rw [hclose] at hkeeps
        cases hkeeps
    have hopen' : ∀ response ∈ responses.dropLast, response.closeConnection = false := by
      intro other hmem
      apply hopen other
      cases responses with
      | nil => cases hmem
      | cons next responses => exact List.mem_cons_of_mem _ hmem
    rw [List.map_cons, List.flatten_cons, readResponses_text hframe hbody hlater,
      ih hframed hsize hopen' (Nat.le_of_succ_le_succ hfuel)]
    rfl

end HttpResponse

end WebServer.Http
