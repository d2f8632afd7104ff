import WebServer.Foundation.Search
import WebServer.Foundation.Window
import WebServer.Util.Buffer
import Mathlib.Data.Finmap

/-!
# Parsing one line of a request

The parsing functions of `HttpRequest` work on a range `[start, end)` of the input buffer.
The range is a list of bytes here and a pointer into it is its offset from `start`. A
`std::string` built from a range whose end stands before its beginning throws
`std::length_error`, which nothing in the server catches.

`method_` and `version_` are indeterminate until a request line sets them, so constructing a
request takes the values that happen to be there.
-/

namespace WebServer.Http

open WebServer.Foundation
open WebServer.Util (Bytes ascii)

/-- `Method`. -/
inductive Method where
  | kGet
  | kPost
  | kPut
  | kDelete
  | kTrace
  | kOptions
  | kConnect
  | kPatch
deriving DecidableEq

/-- `Version`. -/
inductive Version where
  | kUnknown
  | kHttp10
  | kHttp11
deriving DecidableEq

/-- `std::length_error`. -/
inductive LengthError where
  | mk
deriving DecidableEq

/-- `std::map<string, string>`. -/
abbrev HeaderMap := Finmap fun _ : Bytes => Bytes

/-- The data members of `HttpRequest`. -/
@[ext] structure HttpRequest where
  method : Method
  path : Bytes
  query : Bytes
  version : Version
  headers : HeaderMap
deriving DecidableEq

/-- The character `' '`. -/
def space : UInt8 := 32

/-- The character `'?'`. -/
def questionMark : UInt8 := 63

/-- The character `':'`. -/
def colonMark : UInt8 := 58

/-- Build a string from the range `[first, last)`. -/
def stringFrom (range : Bytes) (first last : ℕ) : Except LengthError Bytes :=
  if first ≤ last then .ok (window range first last) else .error .mk

namespace HttpRequest

/-- The constructor, over the indeterminate values of `method_` and `version_`. -/
def new (method : Method) (version : Version) : HttpRequest := ⟨method, [], [], version, ∅⟩

/-- The method a name stands for in `ParseRequestMethod`. -/
def methodOf (name : Bytes) : Option Method :=
  if name = ascii "GET" then some .kGet
  else if name = ascii "POST" then some .kPost
  else if name = ascii "PUT" then some .kPut
  else if name = ascii "DELETE" then some .kDelete
  else if name = ascii "TRACE" then some .kTrace
  else if name = ascii "OPTIONS" then some .kOptions
  else if name = ascii "CONNECT" then some .kConnect
  else if name = ascii "PATCH" then some .kPatch
  else none

/-- `ParseRequestMethod(start, end)`. -/
def parseRequestMethod (req : HttpRequest) (name : Bytes) : Bool × HttpRequest :=
  match methodOf name with
  | some method => (true, { req with method })
  | none => (false, req)

/-- The part of `ParseRequestLine` that splits the target at the first question mark, which
is searched up to the end of the line and not only up to the end of the target. -/
def assignTarget (req : HttpRequest) (line : Bytes) (start query space : ℕ) :
    Except LengthError HttpRequest :=
  if query ≠ line.length then do
    let path ← stringFrom line start query
    let query ← stringFrom line (query + 1) space
    return { req with path, query }
  else do
    let path ← stringFrom line start space
    return { req with path }

/-- The part of `ParseRequestLine` that compares the rest of the line with the version. -/
def parseVersion (req : HttpRequest) (line : Bytes) (start : ℕ) : Bool × HttpRequest :=
  let parsehttp := start + 8 = line.length ∧ window line start (line.length - 1) = ascii "HTTP/1."
  let last := line.getLast?
  if ¬ parsehttp ∨ last ≠ some 48 ∧ last ≠ some 49 then (false, { req with version := .kUnknown })
  else if last = some 48 then (true, { req with version := .kHttp10 })
  else (true, { req with version := .kHttp11 })

/-- The part of `ParseRequestLine` behind the method, from the start of the target on. -/
def parseTarget (req : HttpRequest) (line : Bytes) (start : ℕ) : Except LengthError (Bool × HttpRequest) :=
  let second := findFrom line start space
  if second = line.length then .ok (false, req)
  else (req.assignTarget line start (findFrom line start questionMark) second).map fun req =>
    req.parseVersion line (second + 1)

/-- `ParseRequestLine(start, end)`. -/
def parseRequestLine (req : HttpRequest) (line : Bytes) : Except LengthError (Bool × HttpRequest) :=
  let first := findFrom line 0 space
  if first = line.length then .ok (false, req)
  else match req.parseRequestMethod (window line 0 first) with
    | (false, req) => .ok (false, req)
    | (true, req) => req.parseTarget line (first + 1)

/-- `ParseHeaders(start, colon, end)`, where `text` is the memory from `start` on. The spaces
behind the colon are skipped without a test against `end`. -/
def parseHeaders (req : HttpRequest) (text : Bytes) (colon finish : ℕ) : Bool × HttpRequest :=
  let vaildstart := colon + 1 + ((text.drop (colon + 1)).takeWhile (· == space)).length
  (true, { req with headers := req.headers.insert (window text 0 colon) (window text vaildstart finish) })

/-- `GetHeader(header)`. -/
def getHeader (req : HttpRequest) (header : Bytes) : Bytes := (req.headers.lookup header).getD []

/-- `Swap(req)`: the strings and the map are exchanged, `method_` and `version_` are copied. -/
def swap (req other : HttpRequest) : HttpRequest × HttpRequest :=
  (⟨other.method, other.path, other.query, other.version, other.headers⟩,
    { other with path := req.path, query := req.query, headers := req.headers })

end HttpRequest

end WebServer.Http
