import WebServer.Http.ContentLines

/-!
# Indeterminate members of a new request

A new request has indeterminate `method_` and `version_`. Both are set when a request line is
accepted, and nothing reads them before, so the outcome of a call of `ParseContent` depends
on them only through a request that has not been accepted.
-/

namespace WebServer.Http

open WebServer.Foundation
open WebServer.Util (Bytes crlf)

namespace HttpRequest

/-- What can be used of the result for a line: the request, if the line was accepted. -/
def acceptedRequest (result : Bool × HttpRequest) : Option HttpRequest := if result.1 then some result.2 else none

/-- The comparison with the known versions replaces the version. -/
theorem parseVersion_version (req : HttpRequest) (version : Version) (line : Bytes) (start : ℕ) :
    { req with version }.parseVersion line start = req.parseVersion line start := by
  rw [parseVersion, parseVersion]

/-- Splitting the target keeps the version. -/
theorem assignTarget_version (req : HttpRequest) (version : Version) (line : Bytes) (start query space : ℕ) :
    { req with version }.assignTarget line start query space =
      (req.assignTarget line start query space).map ({ · with version }) := by
  rw [assignTarget, assignTarget]
  split
  · cases stringFrom line start query with
    | error e => rfl
    | ok path =>
      cases stringFrom line (query + 1) space with
      | error e => rfl
      | ok query => rfl
  · cases stringFrom line start space with
    | error e => rfl
    | ok path => rfl

/-- Behind the method, the old version does not matter for an accepted line. -/
theorem parseTarget_version (req : HttpRequest) (version : Version) (line : Bytes) (start : ℕ) :
    ({ req with version }.parseTarget line start).map acceptedRequest =
      (req.parseTarget line start).map acceptedRequest := by
  rw [parseTarget, parseTarget]
  simp only [assignTarget_version]
  split
  · rfl
  · cases req.assignTarget line start (findFrom line start questionMark) (findFrom line start space) with
    | error e => rfl
    | ok req => exact congrArg Except.ok (congrArg acceptedRequest (parseVersion_version req version line _))

/-- For a new request, the indeterminate members do not matter for an accepted line. -/
theorem parseRequestLine_new (method method' : Method) (version version' : Version) (line : Bytes) :
    ((new method version).parseRequestLine line).map acceptedRequest =
      ((new method' version').parseRequestLine line).map acceptedRequest := by
  rw [parseRequestLine, parseRequestLine]
  simp only [parseRequestMethod]
  split
  · rfl
  · cases methodOf (window line 0 (findFrom line 0 space)) with
    | none => rfl
    | some found => exact (parseTarget_version { new method version with method := found } version' line _).symm

end HttpRequest

namespace HttpContent

/-- A new content that reads a terminated request line. -/
theorem parseBytes_new_line {method : Method} {version : Version} {text : Bytes} {finish : ℕ}
    (hsearch : searchIdx crlf text = some finish) : (new method version).parseBytes text =
      match (HttpRequest.new method version).parseRequestLine (text.take finish) with
      | .error _ => some .threw
      | .ok (true, request) => parseBytes ⟨request, .kParseHeaders⟩ (text.drop (finish + 2))
      | .ok (false, request) => some (.returned false ⟨request, .kParseRequestLine⟩ (text.drop (finish + 2))) := by
  have hreads : (new method version).ReadsLines := Or.inl rfl
  have hstate : (new method version).parseState = .kParseRequestLine := rfl
  rw [parseBytes_eq (Or.inl hreads), bytesIteration_line hreads hsearch, consumeLine, if_pos hstate,
    requestLineBranch]
  cases hline : (HttpRequest.new method version).parseRequestLine (text.take finish) with
  | error e => simp [new, hline]
  | ok result =>
    obtain ⟨accepted, request⟩ := result
    cases accepted <;> simp [new, hline]

/-- The indeterminate members of a new content matter for the outcome of a call only if no line
was read, or if the request line was rejected. -/
theorem parseBytes_new (method method' : Method) (version version' : Version) (text : Bytes) :
    (new method version).parseBytes text = (new method' version').parseBytes text ∨
    searchIdx crlf text = none ∨
    ∃ content content' rest,
      (new method version).parseBytes text = some (.returned false content rest) ∧
      (new method' version').parseBytes text = some (.returned false content' rest) := by
  cases hsearch : searchIdx crlf text with
  | none => exact Or.inr (Or.inl rfl)
  | some finish =>
    have hline := HttpRequest.parseRequestLine_new method method' version version' (text.take finish)
    rw [parseBytes_new_line hsearch, parseBytes_new_line hsearch]
    cases hfirst : (HttpRequest.new method version).parseRequestLine (text.take finish) with
    | error e =>
      cases hsecond : (HttpRequest.new method' version').parseRequestLine (text.take finish) with
      | error e' => exact Or.inl rfl
      | ok result' => simp [hfirst, hsecond, Except.map] at hline
    | ok result =>
      cases hsecond : (HttpRequest.new method' version').parseRequestLine (text.take finish) with
      | error e' => simp [hfirst, hsecond, Except.map] at hline
      | ok result' =>
        obtain ⟨accepted, request⟩ := result
        obtain ⟨accepted', request'⟩ := result'
        cases accepted <;> cases accepted' <;>
          simp [hfirst, hsecond, Except.map, HttpRequest.acceptedRequest] at hline
        · exact Or.inr (Or.inr ⟨_, _, _, rfl, rfl⟩)
        · exact Or.inl (by rw [hline])

end HttpContent

end WebServer.Http
