import WebServer.Http.Conversation

/-!
# The site of the program

`HttpResponseCallback` of the program answers a `GET` for one of three paths with its page, another
path with 404, and another method with 400; the last two close the connection. The two long pages
are parameters. Every response of the site can be read back, and whatever arrives on a connection,
what is sent on it are the pages that were asked for.
-/

namespace WebServer.Http

open WebServer.Foundation
open WebServer.Util (Bytes Session Epoller ascii crlf initialSize)

/-- The contents of the pages which the program keeps in a file of their own. -/
structure Pages where
  love6Website : Bytes
  favicon : Bytes

namespace Pages

/-- `HttpResponseCallback(request, response)`. -/
def httpResponseCallback (pages : Pages) (request : HttpRequest) (response : HttpResponse) : HttpResponse :=
  if request.method ≠ .kGet then
    ((response.setStatusCode .k400BadRequest).setStatusMessage (ascii "Bad Request")).setCloseConnection true
  else if request.path = ascii "/" then
    ((response.setStatusCode .k200OK).setBodyType (ascii "text/html")).setBody pages.love6Website
  else if request.path = ascii "/hello" then
    ((response.setStatusCode .k200OK).setBodyType (ascii "text/plain")).setBody (ascii "Hello, world!\n")
  else if request.path = ascii "/favicon" then
    ((response.setStatusCode .k200OK).setBodyType (ascii "image/png")).setBody pages.favicon
  else
    (((response.setStatusCode .k404NotFound).setStatusMessage (ascii "Not Found")).setBody
      (ascii "Sorry, Not Found\n")).setCloseConnection true

/-- The server of the program, which does not close idle connections. -/
def site (pages : Pages) : HttpServer := ⟨false, pages.httpResponseCallback⟩

/-- The pages of the site by their paths, with their types. -/
def page (pages : Pages) (path : Bytes) : Option (Bytes × Bytes) :=
  [(ascii "/", ascii "text/html", pages.love6Website), (ascii "/hello", ascii "text/plain",
    ascii "Hello, world!\n"),
    (ascii "/favicon", ascii "image/png", pages.favicon)].lookup path

/-- What a client should read in answer to a request. -/
def fields (pages : Pages) (request : HttpRequest) : ResponseFields :=
  if request.method = .kGet then
    match pages.page request.path with
    | some (type, body) => ⟨200, [], type, body⟩
    | none => ⟨404, ascii "Not Found", ascii "text/plain", ascii "Sorry, Not Found\n"⟩
  else ⟨400, ascii "Bad Request", ascii "text/plain", []⟩

/-- The request is a `GET` for a page, and wants the connection to be kept open. -/
def KeepsAlive (pages : Pages) (request : HttpRequest) : Prop :=
  request.method = .kGet ∧ (pages.page request.path).isSome ∧ request.closeFlag = false

/-- The kinds of responses of the site. -/
theorem response_cases (pages : Pages) (request : HttpRequest) (statusCode : ℤ) :
    let response := pages.site.response request statusCode
    response = ⟨400, ascii "Bad Request", [], ascii "text/plain", true⟩ ∧ request.method ≠ .kGet ∨
    response = ⟨404, ascii "Not Found", ascii "Sorry, Not Found\n", ascii "text/plain", true⟩ ∧
      request.method = .kGet ∧ pages.page request.path = none ∨
    ∃ type body, response = ⟨200, [], body, type, request.closeFlag⟩ ∧
      request.method = .kGet ∧ pages.page request.path = some (type, body) := by
  simp only [HttpServer.response, site, httpResponseCallback]
  by_cases hmethod : request.method = .kGet
  · rw [if_neg (not_not.mpr hmethod)]
    by_cases hroot : request.path = ascii "/"
    · rw [if_pos hroot]
      exact Or.inr (Or.inr ⟨_, _, rfl, hmethod, by rw [hroot]; rfl⟩)
    rw [if_neg hroot]
    by_cases hhello : request.path = ascii "/hello"
    · rw [if_pos hhello]
      exact Or.inr (Or.inr ⟨_, _, rfl, hmethod, by rw [hhello]; rfl⟩)
    rw [if_neg hhello]
    by_cases hfavicon : request.path = ascii "/favicon"
    · rw [if_pos hfavicon]
      exact Or.inr (Or.inr ⟨_, _, rfl, hmethod, by rw [hfavicon]; rfl⟩)
    rw [if_neg hfavicon]
    refine Or.inr (Or.inl ⟨rfl, hmethod, List.lookup_eq_none_iff.mpr ?_⟩)
    simp [hroot, hhello, hfavicon]
  · rw [if_pos hmethod]
    exact Or.inl ⟨rfl, hmethod⟩

/-- No line end stands in the type of a page. -/
theorem crlf_page {pages : Pages} {path type body : Bytes} (h : pages.page path = some (type, body)) :
    ¬ crlf <:+: type := by
  obtain ⟨before, after, hpages, -⟩ := List.lookup_eq_some_iff.mp h
  have hmem : (path, type, body) ∈ before ++ (path, type, body) :: after :=
    List.mem_append_right _ List.mem_cons_self
  rw [← hpages] at hmem
  simp only [List.mem_cons, Prod.mk.injEq, List.not_mem_nil, or_false] at hmem
  rcases hmem with ⟨-, rfl, -⟩ | ⟨-, rfl, -⟩ | ⟨-, rfl, -⟩
  · decide
  · decide
  · decide

/-- The callback sets the status code of every response. -/
theorem determined_site (pages : Pages) : pages.site.Determined := by
  intro request close status status'
  simp only [site, httpResponseCallback, HttpResponse.new, HttpResponse.setStatusCode]

/-- Every response of the site can be read back. -/
theorem framed_site (pages : Pages) (request : HttpRequest) : (pages.site.response request 0).Framed := by
  rcases pages.response_cases request 0 with ⟨hresponse, -⟩ | ⟨hresponse, -⟩ | ⟨type, body, hresponse, -, hpage⟩
  · rw [hresponse]
    exact ⟨by decide, by decide, by decide⟩
  · rw [hresponse]
    exact ⟨by decide, by decide, by decide⟩
  · rw [hresponse]
    refine ⟨?_, ?_, crlf_page hpage⟩
    · change (-2147483648 : ℤ) ≤ 200 ∧ (200 : ℤ) < 2147483648
      decide
    · change ¬ crlf <:+: []
      decide

/-- A client reads what it asked for. -/
theorem fields_site (pages : Pages) (request : HttpRequest) :
    (pages.site.response request 0).fields = pages.fields request := by
  rcases pages.response_cases request 0 with ⟨hresponse, hmethod⟩ | ⟨hresponse, hmethod, hpage⟩ |
    ⟨type, body, hresponse, hmethod, hpage⟩
  · rw [hresponse, fields, if_neg hmethod]
    rfl
  · rw [hresponse, fields, if_pos hmethod, hpage]
    rfl
  · rw [hresponse, fields, if_pos hmethod, hpage]
    rfl

/-- The connection is kept open behind the page which a request asks for in this way, and nothing else. -/
theorem keepsAlive_site {pages : Pages} {request : HttpRequest}
    (h : (pages.site.response request 0).closeConnection = false) : pages.KeepsAlive request := by
  rcases pages.response_cases request 0 with ⟨hresponse, -⟩ | ⟨hresponse, -⟩ |
    ⟨type, body, hresponse, hmethod, hpage⟩
  · rw [hresponse] at h
    cases h
  · rw [hresponse] at h
    cases h
  · rw [hresponse] at h
    exact ⟨hmethod, by rw [hpage]; rfl, h⟩

/-- Whatever arrives on a connection of the program, while no direct `send()` fails and the responses stay
below `2^31` bytes together with the initial size of the output buffer: the requests are answered in their
order, each with the page for its path, with 404 for another path or with 400 for another method, in a form in
which a client reads the answers back; a request is answered only behind ones that asked for a page and for
the connection to be kept open; and a head that is rejected comes last. -/
theorem site_run (pages : Pages) {address fd : ℕ} {now : ℤ} {content : HttpContent} {epoller : Epoller}
    {events : List ConnectionEvent} {t : Session}
    (hmap : epoller.channelmap fd = none) (hinterest : epoller.interest fd = none)
    (hkept : Meets pages.site.connectionStep pages.site.KeepsReply (.started address fd now content epoller) events)
    (hrun : run pages.site.connectionStep (.started address fd now content epoller) events = some t)
    (hsize : initialSize + t.messages.flatten.length < 2147483648) :
    let requests := pages.site.requests (.started address fd now content epoller) events
    (requests.Pairwise fun request _ => pages.KeepsAlive request) ∧
    ∃ stream, readStream stream = some (requests.map pages.fields) ∧
      (t.output = stream ∨ t.output = stream ++ badRequest) := by
  have hopen : (Session.started address fd now content epoller).Open := Session.open_started hmap hinterest
  have hpairwise := HttpServer.pairwise_requests pages.determined_site (Or.inl hopen) events
  obtain ⟨stream, houtput, hread⟩ := HttpServer.output_readable pages.determined_site pages.framed_site
    (Or.inl ⟨hopen, .started⟩) (HttpServer.roomy_started ..) (Session.output_started ..) hkept hrun hsize
  simp only [fields_site] at hread
  refine ⟨hpairwise.imp keepsAlive_site, stream, hread, ?_⟩
  split at houtput
  · exact Or.inr houtput
  · exact Or.inl (houtput.trans (List.append_nil _))

/-- Short pages. -/
def shortPages : Pages := ⟨ascii "<p>", [137, 80]⟩

/-- The events of a client that asks for a page, and then tries to change one. -/
def helloEvents : List ConnectionEvent :=
  [.readable (some (ascii "GET /hello HTTP/1.1\r\n\r\n")) HttpServer.acceptingInputs, .writable (.accepted 100),
    .readable (some (ascii "PUT / HTTP/1.1\r\n\r\n")) HttpServer.acceptingInputs, .writable (.accepted 100)]

/-- The page is read, and the refusal behind it. -/
theorem site_run_hello : ∃ t stream, run shortPages.site.connectionStep (.started 0 5 0 (.new .kGet .kUnknown) .new)
      helloEvents = some t ∧ (t.output = stream ∨ t.output = stream ++ badRequest) ∧
    readStream stream = some [⟨200, [], ascii "text/plain", ascii "Hello, world!\n"⟩,
      ⟨400, ascii "Bad Request", ascii "text/plain", []⟩] := by
  have hshort : ((run shortPages.site.connectionStep (.started 0 5 0 (.new .kGet .kUnknown) .new) helloEvents).any
      fun t => initialSize + t.messages.flatten.length < 2147483648) = true := by
    decide +kernel
  obtain ⟨t, hrun, hsize⟩ := Option.any_eq_true _ _ |>.mp hshort
  obtain ⟨-, stream, hread, houtput⟩ := shortPages.site_run rfl rfl (by decide +kernel) hrun (by simpa using hsize)
  refine ⟨t, stream, hrun, houtput, hread.trans ?_⟩
  decide +kernel

end Pages

end WebServer.Http
