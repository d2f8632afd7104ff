import WebServer.Http.RoundTrip

/-!
# The grammar of a request head

What a call of `ParseContent` does with the bytes in front of a new parser is read off the shape of
these bytes. A first line that is no request line is refused, or it ends in the exception of an
impossible string. Behind a request line stand lines with a colon, and the first terminated line
without a colon ends the head, whatever else stands in it. As long as there is no such line, the parser
has taken every terminated line and waits.

No head can be read in two ways: the lines of a text are determined by it, and so are the method, the
target and the version of a request line.
-/

namespace WebServer.Http

open WebServer.Foundation
open WebServer.Util (Bytes Buffer ascii crlf)

/-- The lines, each with its line end. -/
def terminated (lines : List Bytes) : Bytes := lines.flatMap (· ++ crlf)

/-- The line is a request line of the grammar. -/
def IsRequestLine (line : Bytes) : Prop :=
  ∃ method target version, space ∉ target ∧ line = requestLineText method target version

/-- A request line and header lines with a colon. -/
@[ext] structure HeadStart where
  method : Method
  target : Bytes
  version : WrittenVersion
  lines : List Bytes
  target_space : space ∉ target
  target_crlf : ¬ crlf <:+: target
  lines_crlf : ∀ line ∈ lines, ¬ crlf <:+: line
  lines_colon : ∀ line ∈ lines, colonMark ∈ line

/-- A head up to its end, which is a line without a colon. -/
@[ext] structure AcceptedHead extends HeadStart where
  last : Bytes
  last_crlf : ¬ crlf <:+: last
  last_colon : colonMark ∉ last

namespace HeadStart

/-- The request line, without its line end. -/
def requestLine (start : HeadStart) : Bytes := requestLineText start.method start.target start.version

/-- The text of the lines. -/
def text (start : HeadStart) : Bytes := start.requestLine ++ (crlf ++ terminated start.lines)

/-- The request after the lines: the target is split at its first question mark, and a header line sets
the value of its name, also if an earlier line has set it. -/
def request (start : HeadStart) : HttpRequest :=
  start.lines.foldl HttpRequest.addHeader
    { method := start.method, path := start.target.takeWhile (· ≠ questionMark), version := start.version.version
      query := if questionMark ∈ start.target then (start.target.dropWhile (· ≠ questionMark)).drop 1 else []
      headers := ∅ }

end HeadStart

/-- The text of a head. -/
def AcceptedHead.text (head : AcceptedHead) : Bytes := head.toHeadStart.text ++ (head.last ++ crlf)

/-- A text with a line end begins with a line. -/
theorem exists_firstLine {text : Bytes} (h : crlf <:+: text) :
    ∃ line rest, text = line ++ (crlf ++ rest) ∧ ¬ crlf <:+: line := by
  cases hsearch : searchIdx crlf text with
  | none => exact absurd h ((searchIdx_eq_none (by decide)).mp hsearch)
  | some finish =>
    refine ⟨text.take finish, text.drop (finish + 2), ?_, searchIdx_take (by decide) hsearch⟩
    exact (searchIdx_split hsearch).trans (List.append_assoc _ _ _)

/-- The first line of a text is determined by the text. -/
theorem firstLine_unique {line line' rest rest' : Bytes} (hline : ¬ crlf <:+: line) (hline' : ¬ crlf <:+: line')
    (h : line ++ (crlf ++ rest) = line' ++ (crlf ++ rest')) : line = line' ∧ rest = rest' := by
  have hfound : searchIdx crlf (line ++ (crlf ++ rest)) = some line.length :=
    searchIdx_terminated (by decide) line rest hline
  have hfound' : searchIdx crlf (line' ++ (crlf ++ rest')) = some line'.length :=
    searchIdx_terminated (by decide) line' rest' hline'
  rw [h, hfound', Option.some.injEq] at hfound
  obtain ⟨hsame, hbehind⟩ := List.append_inj h hfound.symm
  exact ⟨hsame, List.append_cancel_left hbehind⟩

/-- The first field of a text is determined by the text. -/
theorem firstField_unique {c : UInt8} {field field' rest rest' : Bytes} (hfield : c ∉ field) (hfield' : c ∉ field')
    (h : field ++ c :: rest = field' ++ c :: rest') : field = field' ∧ rest = rest' := by
  have hsame : field = field' := by
    rw [← takeWhile_separator hfield rest, h, takeWhile_separator hfield']
  subst hsame
  exact ⟨rfl, List.cons_injective (List.append_cancel_left h)⟩

/-- A request line can be read in one way. -/
theorem requestLineText_unique {method method' : Method} {target target' : Bytes}
    {version version' : WrittenVersion}
    (htarget : space ∉ target) (htarget' : space ∉ target')
    (h : requestLineText method target version = requestLineText method' target' version') :
    method = method' ∧ target = target' ∧ version = version' := by
  obtain ⟨hname, hrest⟩ := firstField_unique (space_notMem_methodName method) (space_notMem_methodName method') h
  obtain ⟨hsame, htext⟩ := firstField_unique htarget htarget' hrest
  have hmethod : HttpRequest.methodOf (methodName method) = HttpRequest.methodOf (methodName method') := by
    rw [hname]
  rw [methodOf_methodName, methodOf_methodName, Option.some.injEq] at hmethod
  refine ⟨hmethod, hsame, ?_⟩
  cases version <;> cases version' <;> first | rfl | exact absurd htext (by decide)

/-- No line end stands inside a request line whose target has none. -/
theorem crlf_requestLineText (method : Method) (version : WrittenVersion) {target : Bytes}
    (h : ¬ crlf <:+: target) :
    ¬ crlf <:+: requestLineText method target version :=
  not_infix_separated (by decide) (by decide) (crlf_methodName method)
    (not_infix_separated (by decide) (by decide) h (crlf_version version))

/-- The target is a part of the request line. -/
theorem target_within (method : Method) (target : Bytes) (version : WrittenVersion) :
    target <:+: requestLineText method target version :=
  ⟨methodName method ++ [space], space :: version.text, by simp [requestLineText]⟩

/-- The header lines up to the first line without a colon are determined by the text. -/
theorem terminated_unique {lines lines' : List Bytes} {last last' rest rest' : Bytes}
    (hcrlf : ∀ line ∈ lines, ¬ crlf <:+: line) (hcolon : ∀ line ∈ lines, colonMark ∈ line)
    (hcrlf' : ∀ line ∈ lines', ¬ crlf <:+: line) (hcolon' : ∀ line ∈ lines', colonMark ∈ line)
    (hlast : ¬ crlf <:+: last ∧ colonMark ∉ last) (hlast' : ¬ crlf <:+: last' ∧ colonMark ∉ last')
    (h : terminated lines ++ (last ++ (crlf ++ rest)) = terminated lines' ++ (last' ++ (crlf ++ rest'))) :
    lines = lines' ∧ last = last' ∧ rest = rest' := by
  induction lines generalizing lines' with
  | nil =>
    cases lines' with
    | nil => exact ⟨rfl, firstLine_unique hlast.1 hlast'.1 h⟩
    | cons line' lines' =>
      rw [terminated, terminated, List.flatMap_nil, List.nil_append, List.flatMap_cons, List.append_assoc,
        List.append_assoc] at h
      obtain ⟨rfl, -⟩ := firstLine_unique hlast.1 (hcrlf' line' List.mem_cons_self) h
      exact absurd (hcolon' last List.mem_cons_self) hlast.2
  | cons line lines ih =>
    rw [terminated, List.flatMap_cons, List.append_assoc, List.append_assoc] at h
    cases lines' with
    | nil =>
      obtain ⟨rfl, -⟩ := firstLine_unique (hcrlf line List.mem_cons_self) hlast'.1 h
      exact absurd (hcolon line List.mem_cons_self) hlast'.2
    | cons line' lines' =>
      rw [terminated, List.flatMap_cons, List.append_assoc, List.append_assoc] at h
      obtain ⟨rfl, hrest⟩ := firstLine_unique (hcrlf line List.mem_cons_self) (hcrlf' line' List.mem_cons_self) h
      obtain ⟨rfl, hsame⟩ := ih (fun l hl => hcrlf l (List.mem_cons_of_mem _ hl))
        (fun l hl => hcolon l (List.mem_cons_of_mem _ hl)) (fun l hl => hcrlf' l (List.mem_cons_of_mem _ hl))
        (fun l hl => hcolon' l (List.mem_cons_of_mem _ hl)) hrest
      exact ⟨rfl, hsame⟩

namespace HeadStart

/-- No line end stands inside the request line. -/
theorem crlf_requestLine (start : HeadStart) : ¬ crlf <:+: start.requestLine :=
  crlf_requestLineText start.method start.version start.target_crlf

end HeadStart

namespace AcceptedHead

/-- The text of a head, by its parts. -/
theorem text_append (head : AcceptedHead) (rest : Bytes) :
    head.text ++ rest = head.toHeadStart.text ++ (head.last ++ (crlf ++ rest)) := by
  rw [text, List.append_assoc, List.append_assoc]

/-- A text begins with one head at most. -/
theorem text_unique {head head' : AcceptedHead} {rest rest' : Bytes} (h : head.text ++ rest = head'.text ++ rest') :
    head = head' ∧ rest = rest' := by
  rw [text_append, text_append, HeadStart.text, HeadStart.text, List.append_assoc, List.append_assoc,
    List.append_assoc,
    List.append_assoc] at h
  obtain ⟨hline, hlines⟩ := firstLine_unique head.crlf_requestLine head'.crlf_requestLine h
  obtain ⟨hmethod, htarget, hversion⟩ := requestLineText_unique head.target_space head'.target_space hline
  obtain ⟨hsame, hlast, hrest⟩ :=
    terminated_unique head.lines_crlf head.lines_colon head'.lines_crlf head'.lines_colon
    ⟨head.last_crlf, head.last_colon⟩ ⟨head'.last_crlf, head'.last_colon⟩ hlines
  exact ⟨AcceptedHead.ext hmethod htarget hversion hsame hlast, hrest⟩

end AcceptedHead

/-- The shapes of the bytes in front of a parser in the state for headers. -/
inductive HeaderShape (text : Bytes) : Prop
  | unfinished (lines : List Bytes) (rest : Bytes) (split : text = terminated lines ++ rest)
      (lines_crlf : ∀ line ∈ lines, ¬ crlf <:+: line) (lines_colon : ∀ line ∈ lines, colonMark ∈ line)
      (rest_crlf : ¬ crlf <:+: rest)
  | ended (lines : List Bytes) (last rest : Bytes) (split : text = terminated lines ++ (last ++ (crlf ++ rest)))
      (lines_crlf : ∀ line ∈ lines, ¬ crlf <:+: line) (lines_colon : ∀ line ∈ lines, colonMark ∈ line)
      (last_crlf : ¬ crlf <:+: last) (last_colon : colonMark ∉ last)

/-- Every text has one of these shapes. -/
theorem headerShape (text : Bytes) : HeaderShape text := by
  induction hlength : text.length using Nat.strongRecOn generalizing text with
  | ind length ih =>
    by_cases hend : crlf <:+: text
    · obtain ⟨line, rest, rfl, hline⟩ := exists_firstLine hend
      by_cases hcolon : colonMark ∈ line
      · have hshorter : rest.length < length := by
          rw [← hlength, List.length_append, List.length_append]
          change _ < _ + (2 + _)
          omega
        have hjoin (lines : List Bytes) (tail : Bytes) :
            line ++ (crlf ++ (terminated lines ++ tail)) = terminated (line :: lines) ++ tail := by
          simp only [terminated, List.flatMap_cons, List.append_assoc]
        cases ih rest.length hshorter rest rfl with
        | unfinished lines tail hsplit hcrlf hcolons htail =>
          exact .unfinished (line :: lines) tail (by rw [hsplit, hjoin]) (List.forall_mem_cons.mpr ⟨hline, hcrlf⟩)
            (List.forall_mem_cons.mpr ⟨hcolon, hcolons⟩) htail
        | ended lines last tail hsplit hcrlf hcolons hlast hnone =>
          exact .ended (line :: lines) last tail (by rw [hsplit, hjoin]) (List.forall_mem_cons.mpr ⟨hline, hcrlf⟩)
            (List.forall_mem_cons.mpr ⟨hcolon, hcolons⟩) hlast hnone
      · exact .ended [] line rest rfl (List.forall_mem_nil _) (List.forall_mem_nil _) hline hcolon
    · exact .unfinished [] text rfl (List.forall_mem_nil _) (List.forall_mem_nil _) hend

namespace HttpRequest

/-- A request line throws exactly when its question mark stands behind the target. -/
theorem exists_error_iff (req : HttpRequest) (line : Bytes) :
    (∃ e, req.parseRequestLine line = .error e) ↔ MarkBehindTarget line := by
  constructor
  · rintro ⟨e, herror⟩
    cases lineShape line with
    | unseparated h =>
      rw [parseRequestLine_unseparated req h] at herror
      cases herror
    | unknownMethod name rest htext h hunknown =>
      rw [htext, parseRequestLine_unknownMethod req h hunknown] at herror
      cases herror
    | untargeted method rest htext h =>
      rw [htext, parseRequestLine_untargeted req method h] at herror
      cases herror
    | targeted method target rest htext h =>
      rw [htext, parseRequestLine_targeted req method h, splitTarget] at herror
      split_ifs at herror with htarget hrest
      · cases herror
      · exact ⟨method, target, rest, htext, h, htarget, hrest⟩
      · cases herror
  · rintro ⟨method, target, rest, rfl, h, htarget, hrest⟩
    refine ⟨.mk, ?_⟩
    rw [parseRequestLine_targeted req method h, splitTarget, if_neg htarget, if_pos hrest]
    rfl

/-- Every other line that is no request line is refused. -/
theorem exists_refused {line : Bytes} (req : HttpRequest) (hother : ¬ IsRequestLine line)
    (hmark : ¬ MarkBehindTarget line) : ∃ req', req.parseRequestLine line = .ok (false, req') := by
  cases hcall : req.parseRequestLine line with
  | error e => exact absurd ((exists_error_iff req line).mp ⟨e, hcall⟩) hmark
  | ok result =>
    obtain ⟨accepted, req'⟩ := result
    cases accepted with
    | false => exact ⟨req', rfl⟩
    | true => exact absurd (exists_requestLineText hcall) hother

end HttpRequest

namespace HttpContent

/-- Header lines with a colon are taken one after the other. -/
theorem parseBytes_terminated {lines : List Bytes} (hcrlf : ∀ line ∈ lines, ¬ crlf <:+: line)
    (hcolon : ∀ line ∈ lines, colonMark ∈ line) (request : HttpRequest) (rest : Bytes) :
    parseBytes ⟨request, .kParseHeaders⟩ (terminated lines ++ rest) =
      parseBytes ⟨lines.foldl HttpRequest.addHeader request, .kParseHeaders⟩ rest := by
  induction lines generalizing request with
  | nil => rfl
  | cons line lines ih =>
    rw [List.forall_mem_cons] at hcrlf hcolon
    have hreads : ReadsLines ⟨request, .kParseHeaders⟩ := Or.inr rfl
    have hsplit : terminated (line :: lines) ++ rest = line ++ (crlf ++ (terminated lines ++ rest)) := by
      simp only [terminated, List.flatMap_cons, List.append_assoc]
    rw [hsplit, parseBytes_line hreads hcrlf.1, consumeLine, if_neg (by simp), if_pos hcolon.1]
    exact ih hcrlf.2 hcolon.2 (request.addHeader line)

/-- The first line in front of a new parser is taken as the request line. -/
theorem consumeLine_new (method : Method) (version : Version) (line rest : Bytes) :
    (new method version).consumeLine line rest = (new method version).requestLineBranch line rest := if_pos rfl

/-- A new parser takes the lines at the start of a head. -/
theorem parseBytes_start (start : HeadStart) (method : Method) (version : Version) (rest : Bytes) :
    (new method version).parseBytes (start.text ++ rest) = parseBytes ⟨start.request, .kParseHeaders⟩ rest := by
  have hread := HttpRequest.parseRequestLine_requestLineText (new method version).request start.method start.version
    start.target_space
  rw [HeadStart.text, List.append_assoc, List.append_assoc, parseBytes_line (Or.inl rfl) start.crlf_requestLine,
    consumeLine_new, requestLineBranch, HeadStart.requestLine, hread]
  exact parseBytes_terminated start.lines_crlf start.lines_colon _ rest

/-- Without a line end the parser waits. -/
theorem parseBytes_unterminated {content : HttpContent} (hreads : content.ReadsLines) {text : Bytes}
    (h : ¬ crlf <:+: text) : content.parseBytes text = some (.returned true content text) := by
  rw [parseBytes_eq (Or.inl hreads), bytesIteration_unterminated hreads ((searchIdx_eq_none (by decide)).mpr h)]

/-- A new parser takes a head and completes its request. -/
theorem parseBytes_accepted (head : AcceptedHead) (method : Method) (version : Version) (rest : Bytes) :
    (new method version).parseBytes (head.text ++ rest) =
      some (.returned true ⟨head.toHeadStart.request, .kParseGotCompleteRequest⟩ rest) := by
  have hreads : ReadsLines ⟨head.toHeadStart.request, .kParseHeaders⟩ := Or.inr rfl
  rw [head.text_append, parseBytes_start, parseBytes_line hreads head.last_crlf, consumeLine, if_neg (by simp),
    if_neg head.last_colon]

/-- A first line with the question mark behind the target throws. -/
theorem parseBytes_throwing {line : Bytes} (hline : ¬ crlf <:+: line) (hmark : HttpRequest.MarkBehindTarget line)
    (method : Method) (version : Version) (rest : Bytes) :
    (new method version).parseBytes (line ++ (crlf ++ rest)) = some .threw := by
  obtain ⟨e, herror⟩ := (HttpRequest.exists_error_iff (new method version).request line).mpr hmark
  rw [parseBytes_line (Or.inl rfl) hline, consumeLine_new, requestLineBranch, herror]

/-- Every other first line that is no request line is refused. -/
theorem parseBytes_refused {line : Bytes} (hline : ¬ crlf <:+: line) (hother : ¬ IsRequestLine line)
    (hmark : ¬ HttpRequest.MarkBehindTarget line) (method : Method) (version : Version) (rest : Bytes) :
    ∃ content, (new method version).parseBytes (line ++ (crlf ++ rest)) = some (.returned false content rest) := by
  obtain ⟨request, hrefused⟩ := HttpRequest.exists_refused (new method version).request hother hmark
  rw [parseBytes_line (Or.inl rfl) hline, consumeLine_new, requestLineBranch, hrefused]
  exact ⟨_, rfl⟩

/-- What a new parser does with the bytes in front of it. -/
inductive HeadOutcome (method : Method) (version : Version) (text : Bytes) : Prop
  | unterminated (text_crlf : ¬ crlf <:+: text)
      (call : (new method version).parseBytes text = some (.returned true (new method version) text))
  | throwing (line rest : Bytes) (split : text = line ++ (crlf ++ rest)) (line_crlf : ¬ crlf <:+: line)
      (mark : HttpRequest.MarkBehindTarget line) (call : (new method version).parseBytes text = some .threw)
  | refused (line rest : Bytes) (content : HttpContent) (split : text = line ++ (crlf ++ rest))
      (line_crlf : ¬ crlf <:+: line) (other : ¬ IsRequestLine line) (mark : ¬ HttpRequest.MarkBehindTarget line)
      (call : (new method version).parseBytes text = some (.returned false content rest))
  | unfinished (start : HeadStart) (rest : Bytes) (split : text = start.text ++ rest) (rest_crlf : ¬ crlf <:+: rest)
      (call : (new method version).parseBytes text = some (.returned true ⟨start.request, .kParseHeaders⟩ rest))
  | ended (head : AcceptedHead) (rest : Bytes) (split : text = head.text ++ rest)
      (call : (new method version).parseBytes text =
        some (.returned true ⟨head.toHeadStart.request, .kParseGotCompleteRequest⟩ rest))

/-- The lines at the start of a head, and the rest in which no line ends. -/
theorem headOutcome_of_start (start : HeadStart) {rest : Bytes} (hrest : ¬ crlf <:+: rest) (method : Method)
    (version : Version) : HeadOutcome method version (start.text ++ rest) :=
  .unfinished start rest rfl hrest
    ((parseBytes_start start method version rest).trans (parseBytes_unterminated (Or.inr rfl) hrest))

/-- Every text has one of these outcomes. -/
theorem headOutcome (method : Method) (version : Version) (text : Bytes) : HeadOutcome method version text := by
  by_cases hend : crlf <:+: text
  · obtain ⟨line, rest, rfl, hline⟩ := exists_firstLine hend
    by_cases hmark : HttpRequest.MarkBehindTarget line
    · exact .throwing line rest rfl hline hmark (parseBytes_throwing hline hmark method version rest)
    by_cases hwritten : IsRequestLine line
    · obtain ⟨method', target, version', htarget, rfl⟩ := hwritten
      have hcrlf : ¬ crlf <:+: target := fun h => hline (h.trans (target_within method' target version'))
      cases headerShape rest with
      | unfinished lines tail hsplit hlines hcolons htail =>
        have hstart := headOutcome_of_start
          ⟨method', target, version', lines, htarget, hcrlf, hlines, hcolons⟩ htail method version
        rw [HeadStart.text, List.append_assoc, List.append_assoc] at hstart
        exact hsplit ▸ hstart
      | ended lines last tail hsplit hlines hcolons hlast hnone =>
        let head : AcceptedHead := ⟨⟨method', target, version', lines, htarget, hcrlf, hlines, hcolons⟩,
          last, hlast, hnone⟩
        have htext : requestLineText method' target version' ++ (crlf ++ rest) = head.text ++ tail := by
          rw [hsplit, AcceptedHead.text_append, HeadStart.text, List.append_assoc, List.append_assoc]
          rfl
        rw [htext]
        exact .ended head tail rfl (parseBytes_accepted head method version tail)
    · obtain ⟨content, hrefused⟩ := parseBytes_refused hline hwritten hmark method version rest
      exact .refused line rest content rfl hline hwritten hmark hrefused
  · exact .unterminated hend (parseBytes_unterminated (Or.inl rfl) hend)

/-- A call returns with the given result, content and remaining bytes. -/
def Returns (content : HttpContent) (buffer : Buffer) (parseok : Bool) (content' : HttpContent) (rest : Bytes) :
    Prop :=
  ∃ buffer', content.parseContent buffer = some (.returned parseok content' buffer') ∧ buffer'.bytes = rest

/-- What a call returns is read off the bytes. -/
theorem returns_iff {content content' : HttpContent} {buffer : Buffer} {parseok : Bool} {rest : Bytes} :
    content.Returns buffer parseok content' rest ↔
      content.parseBytes buffer.bytes = some (.returned parseok content' rest) := by
  refine ⟨?_, parseContent_of_parseBytes⟩
  rintro ⟨buffer', hcall, rfl⟩
  rw [← parseContent_bytes, hcall]
  rfl

/-- Whether a call throws is read off the bytes. -/
theorem threw_iff {content : HttpContent} {buffer : Buffer} :
    content.parseContent buffer = some .threw ↔ content.parseBytes buffer.bytes = some .threw := by
  rw [← parseContent_bytes]
  cases content.parseContent buffer with
  | none => simp
  | some outcome => cases outcome <;> simp [ParseOutcome.map]

/-- The bytes in front of a new parser decide what a call does: it completes the request of the one head with
which they begin, or waits with the lines it has taken, or refuses the first line, or throws. -/
theorem parseContent_grammar (method : Method) (version : Version) (buffer : Buffer) :
    (∀ request rest, (new method version).Returns buffer true ⟨request, .kParseGotCompleteRequest⟩ rest ↔
      ∃! head : AcceptedHead, buffer.bytes = head.text ++ rest ∧ request = head.toHeadStart.request) ∧
    (∀ content rest, (new method version).Returns buffer true content rest ∧ content.getCompleteRequest = false ↔
      ¬ crlf <:+: rest ∧ ((content = new method version ∧ buffer.bytes = rest) ∨
        ∃ start : HeadStart, buffer.bytes = start.text ++ rest ∧ content = ⟨start.request, .kParseHeaders⟩)) ∧
    (∀ rest, (∃ content, (new method version).Returns buffer false content rest) ↔
      ∃ line, buffer.bytes = line ++ (crlf ++ rest) ∧ ¬ crlf <:+: line ∧ ¬ IsRequestLine line ∧
        ¬ HttpRequest.MarkBehindTarget line) ∧
    ((new method version).parseContent buffer = some .threw ↔
      ∃ line rest, buffer.bytes = line ++ (crlf ++ rest) ∧ ¬ crlf <:+: line ∧
        HttpRequest.MarkBehindTarget line) := by
  refine ⟨fun request rest => ?_, fun content rest => ?_, fun rest => ?_, ?_⟩
  · rw [returns_iff]
    constructor
    · intro hcall
      cases headOutcome method version buffer.bytes with
      | ended head tail hsplit hended =>
        cases hcall.symm.trans hended
        exact ⟨head, ⟨hsplit, rfl⟩, fun head' h => (AcceptedHead.text_unique (h.1.symm.trans hsplit)).1⟩
      | unterminated _ hother => cases hcall.symm.trans hother
      | throwing _ _ _ _ _ hother => cases hcall.symm.trans hother
      | refused _ _ _ _ _ _ _ hother => cases hcall.symm.trans hother
      | unfinished _ _ _ _ hother => cases hcall.symm.trans hother
    · rintro ⟨head, ⟨hbytes, rfl⟩, -⟩
      rw [hbytes]
      exact parseBytes_accepted head method version rest
  · rw [returns_iff]
    constructor
    · rintro ⟨hcall, hopen⟩
      cases headOutcome method version buffer.bytes with
      | unterminated htext hwaits =>
        cases hcall.symm.trans hwaits
        exact ⟨htext, Or.inl ⟨rfl, rfl⟩⟩
      | unfinished start tail hsplit htail hwaits =>
        cases hcall.symm.trans hwaits
        exact ⟨htail, Or.inr ⟨start, hsplit, rfl⟩⟩
      | throwing _ _ _ _ _ hother => cases hcall.symm.trans hother
      | refused _ _ _ _ _ _ _ hother => cases hcall.symm.trans hother
      | ended _ _ _ hother =>
        cases hcall.symm.trans hother
        cases hopen
    · rintro ⟨hrest, ⟨rfl, rfl⟩ | ⟨start, hbytes, rfl⟩⟩
      · exact ⟨parseBytes_unterminated (Or.inl rfl) hrest, rfl⟩
      · rw [hbytes, parseBytes_start]
        exact ⟨parseBytes_unterminated (Or.inr rfl) hrest, rfl⟩
  · simp only [returns_iff]
    constructor
    · rintro ⟨content, hcall⟩
      cases headOutcome method version buffer.bytes with
      | refused line tail _ hsplit hline hother hmark hrefused =>
        cases hcall.symm.trans hrefused
        exact ⟨line, hsplit, hline, hother, hmark⟩
      | unterminated _ hother => cases hcall.symm.trans hother
      | throwing _ _ _ _ _ hother => cases hcall.symm.trans hother
      | unfinished _ _ _ _ hother => cases hcall.symm.trans hother
      | ended _ _ _ hother => cases hcall.symm.trans hother
    · rintro ⟨line, hbytes, hline, hother, hmark⟩
      rw [hbytes]
      exact parseBytes_refused hline hother hmark method version rest
  · rw [threw_iff]
    constructor
    · intro hcall
      cases headOutcome method version buffer.bytes with
      | throwing line tail hsplit hline hmark _ => exact ⟨line, tail, hsplit, hline, hmark⟩
      | unterminated _ hother => cases hcall.symm.trans hother
      | refused _ _ _ _ _ _ _ hother => cases hcall.symm.trans hother
      | unfinished _ _ _ _ hother => cases hcall.symm.trans hother
      | ended _ _ _ hother => cases hcall.symm.trans hother
    · rintro ⟨line, rest, hbytes, hline, hmark⟩
      rw [hbytes]
      exact parseBytes_throwing hline hmark method version rest

end HttpContent

end WebServer.Http
