import WebServer.Http.Request
import Mathlib.Data.List.TakeWhile

/-!
# Every request line

A line has one of four shapes: it has no space, its first word is not the name of a method, it
has no second space, or it is a method, a target and the rest. What `ParseRequestLine` does with
a line is read off its shape.

The target is searched for a question mark up to the end of the line. When the first one stands
behind the target, the string for the query is built from a range that ends before it begins.
-/

namespace WebServer.Http

open WebServer.Foundation
open WebServer.Util (Bytes ascii)

/-- The name of a method on the request line. -/
def methodName : Method → Bytes
  | .kGet => ascii "GET"
  | .kPost => ascii "POST"
  | .kPut => ascii "PUT"
  | .kDelete => ascii "DELETE"
  | .kTrace => ascii "TRACE"
  | .kOptions => ascii "OPTIONS"
  | .kConnect => ascii "CONNECT"
  | .kPatch => ascii "PATCH"

/-- A version that can be written on the request line. -/
inductive WrittenVersion where
  | http10
  | http11
deriving DecidableEq

namespace WrittenVersion

/-- The value of `version_`. -/
def version : WrittenVersion → Version
  | http10 => .kHttp10
  | http11 => .kHttp11

/-- The text on the request line. -/
def text : WrittenVersion → Bytes
  | http10 => ascii "HTTP/1.0"
  | http11 => ascii "HTTP/1.1"

end WrittenVersion

/-- A request line of the grammar. -/
def requestLineText (method : Method) (target : Bytes) (version : WrittenVersion) : Bytes :=
  methodName method ++ space :: (target ++ space :: version.text)

/-- A method is recognized by its name. -/
theorem methodOf_methodName (method : Method) : HttpRequest.methodOf (methodName method) = some method := by
  cases method <;> decide

/-- Only the name of a method is recognized. -/
theorem eq_methodName {name : Bytes} {method : Method} (h : HttpRequest.methodOf name = some method) :
    name = methodName method := by
  rw [HttpRequest.methodOf] at h
  split_ifs at h <;> cases h <;> assumption

/-- The name of a method contains no space. -/
theorem space_notMem_methodName (method : Method) : space ∉ methodName method := by
  cases method <;> decide

/-- The shapes of a line, by what stands in front of its first two spaces. -/
inductive LineShape (line : Bytes) : Prop
  | unseparated (h : space ∉ line)
  | unknownMethod (name rest : Bytes) (text : line = name ++ space :: rest) (h : space ∉ name)
      (unknown : HttpRequest.methodOf name = none)
  | untargeted (method : Method) (rest : Bytes) (text : line = methodName method ++ space :: rest)
    (h : space ∉ rest)
  | targeted (method : Method) (target rest : Bytes)
      (text : line = methodName method ++ space :: (target ++ space :: rest)) (h : space ∉ target)

/-- Every line has one of these shapes. -/
theorem lineShape (line : Bytes) : LineShape line := by
  by_cases hfirst : space ∈ line
  · obtain ⟨name, rest, rfl, hname⟩ := List.eq_append_cons_of_mem hfirst
    cases hmethod : HttpRequest.methodOf name with
    | none => exact .unknownMethod name rest rfl hname hmethod
    | some method =>
      obtain rfl := eq_methodName hmethod
      by_cases hsecond : space ∈ rest
      · obtain ⟨target, rest, rfl, htarget⟩ := List.eq_append_cons_of_mem hsecond
        exact .targeted method target rest rfl htarget
      · exact .untargeted method rest rfl hsecond
  · exact .unseparated hfirst

/-- Where the search for a question mark stops: in the target, behind it, or at the end of the line. -/
inductive MarkPosition (line : Bytes) (start : ℕ) (target rest : Bytes) : Prop
  | inTarget (path query : Bytes) (text : target = path ++ questionMark :: query) (h : questionMark ∉ path)
      (position : findFrom line start questionMark = start + path.length)
  | behind (notTarget : questionMark ∉ target) (inRest : questionMark ∈ rest)
      (after : start + target.length < findFrom line start questionMark)
      (inside : findFrom line start questionMark < line.length)
  | absent (notTarget : questionMark ∉ target) (notRest : questionMark ∉ rest)
      (position : findFrom line start questionMark = line.length)

/-- The search stops at one of these positions. -/
theorem markPosition {line before target rest : Bytes} {start : ℕ}
    (hline : line = before ++ (target ++ space :: rest))
    (hstart : start = before.length) : MarkPosition line start target rest := by
  by_cases htarget : questionMark ∈ target
  · obtain ⟨path, query, rfl, hpath⟩ := List.eq_append_cons_of_mem htarget
    have htext : line = before ++ (path ++ questionMark :: (query ++ space :: rest)) := by simp [hline]
    exact .inTarget path query rfl hpath (findFrom_separator htext hstart hpath)
  · by_cases hrest : questionMark ∈ rest
    · obtain ⟨front, back, rfl, hfront⟩ := List.eq_append_cons_of_mem hrest
      have htext : line = before ++ ((target ++ space :: front) ++ questionMark :: back) := by simp [hline]
      have hskipped : questionMark ∉ target ++ space :: front := by
        rw [List.mem_append, List.mem_cons, not_or, not_or]
        exact ⟨htarget, by decide, hfront⟩
      have hfind := findFrom_separator htext hstart hskipped
      have hlength := congrArg List.length htext
      simp only [List.length_append, List.length_cons] at hfind hlength
      exact .behind htarget hrest (by omega) (by omega)
    · have hnone : questionMark ∉ line.drop start := by
        rw [hline, hstart, List.drop_left, List.mem_append, List.mem_cons, not_or, not_or]
        exact ⟨htarget, by decide, hrest⟩
      have hlength := congrArg List.length hline
      rw [List.length_append] at hlength
      exact .absent htarget hrest ((findFrom_eq_length (by omega)).mpr hnone)

namespace HttpRequest

/-- What `ParseRequestLine` makes of a target and of what follows it. -/
def splitTarget (req : HttpRequest) (target rest : Bytes) : Except LengthError HttpRequest :=
  if questionMark ∈ target then
    .ok { req with
      path := target.takeWhile (· ≠ questionMark)
      query := (target.dropWhile (· ≠ questionMark)).drop 1 }
  else if questionMark ∈ rest then .error .mk
  else .ok { req with path := target }

/-- What `ParseRequestLine` makes of the text behind the second space. -/
def readVersion (req : HttpRequest) (rest : Bytes) : Bool × HttpRequest :=
  if rest = WrittenVersion.http10.text then (true, { req with version := .kHttp10 })
  else if rest = WrittenVersion.http11.text then (true, { req with version := .kHttp11 })
  else (false, { req with version := .kUnknown })

/-- The target is split by its own question mark, and one that follows it is an error. -/
theorem assignTarget_split (req : HttpRequest) {line before target rest : Bytes} {start : ℕ}
    (hline : line = before ++ (target ++ space :: rest)) (hstart : start = before.length) :
    req.assignTarget line start (findFrom line start questionMark) (start + target.length) =
      req.splitTarget target rest := by
  have hlength := congrArg List.length hline
  simp only [List.length_append, List.length_cons] at hlength
  rw [assignTarget, splitTarget]
  cases markPosition hline hstart with
  | inTarget path query htext hpath hposition =>
    have hmark : questionMark ∈ target := htext ▸ List.mem_append_right _ List.mem_cons_self
    have hin := congrArg List.length htext
    simp only [List.length_append, List.length_cons] at hin
    have hinside : start + path.length ≠ line.length := by omega
    have hfirst : line = before ++ (path ++ questionMark :: (query ++ space :: rest)) := by simp [hline, htext]
    have hsecond : line = (before ++ path ++ [questionMark]) ++ (query ++ space :: rest) := by simp [hline, htext]
    have hpathText : target.takeWhile (· ≠ questionMark) = path := htext ▸ takeWhile_separator hpath query
    have hqueryText : (target.dropWhile (· ≠ questionMark)).drop 1 = query := by
      rw [htext, dropWhile_separator hpath query]
      rfl
    rw [hposition, if_pos hinside, if_pos hmark, hpathText, hqueryText, stringFrom, if_pos (Nat.le_add_right _ _),
      window_middle hfirst hstart rfl, stringFrom, if_pos (by omega),
      window_middle hsecond (by simp [hstart]; omega) (by omega)]
    rfl
  | behind htarget hrest hafter hinside =>
    rw [if_pos hinside.ne, if_neg htarget, if_pos hrest, stringFrom, if_pos (by omega), stringFrom,
      if_neg (by omega)]
    rfl
  | absent htarget hrest hposition =>
    rw [if_neg (not_not.mpr hposition), if_neg htarget, if_neg hrest, stringFrom, if_pos (Nat.le_add_right _ _),
      window_middle hline hstart rfl]
    rfl

/-- The rest of the line is compared with the two versions. -/
theorem parseVersion_rest (req : HttpRequest) {line before rest : Bytes} {start : ℕ} (hline : line = before ++ rest)
    (hstart : start = before.length) : req.parseVersion line start = req.readVersion rest := by
  have hlength := congrArg List.length hline
  rw [List.length_append] at hlength
  have hcompare : start + 8 = line.length ∧ window line start (line.length - 1) = ascii "HTTP/1." ↔
      ∃ last, rest = ascii "HTTP/1." ++ [last] := by
    constructor
    · rintro ⟨height, hhttp⟩
      have hwindow : window line start (line.length - 1) = rest.take 7 := by
        rw [window, hline, hstart, List.drop_left, List.length_append]
        congr 1
        omega
      have hone : (rest.drop 7).length = 1 := by
        rw [List.length_drop]
        omega
      obtain ⟨last, hlast⟩ := List.length_eq_one_iff.mp hone
      exact ⟨last, by rw [← hhttp, hwindow, ← hlast, List.take_append_drop]⟩
    · rintro ⟨last, hrest⟩
      have height : rest.length = 8 := by rw [hrest]; rfl
      have htext : line = before ++ (ascii "HTTP/1." ++ [last]) := by rw [hline, hrest]
      have hseven : (ascii "HTTP/1.").length = 7 := rfl
      exact ⟨by omega, window_middle htext hstart (by omega)⟩
  by_cases hhttp : ∃ last, rest = ascii "HTTP/1." ++ [last]
  · have hparse := hcompare.mpr hhttp
    obtain ⟨last, rfl⟩ := hhttp
    have hlast : line.getLast? = some last := by rw [hline, ← List.append_assoc, List.getLast?_concat]
    have hzero : ascii "HTTP/1." ++ [last] = WrittenVersion.http10.text ↔ last = 48 := by
      change ascii "HTTP/1." ++ [last] = ascii "HTTP/1." ++ [48] ↔ _
      rw [List.append_cancel_left_eq, List.singleton_inj]
    have hone : ascii "HTTP/1." ++ [last] = WrittenVersion.http11.text ↔ last = 49 := by
      change ascii "HTTP/1." ++ [last] = ascii "HTTP/1." ++ [49] ↔ _
      rw [List.append_cancel_left_eq, List.singleton_inj]
    rw [parseVersion, readVersion, hlast]
    simp only [hzero, hone]
    by_cases h48 : last = 48
    · simp [hparse, h48]
    · by_cases h49 : last = 49
      · simp [hparse, h49]
      · simp [h48, h49]
  · have hversion (version : WrittenVersion) : rest ≠ version.text := by
      rintro rfl
      cases version with
      | http10 => exact hhttp ⟨48, rfl⟩
      | http11 => exact hhttp ⟨49, rfl⟩
    have hparse := mt hcompare.mp hhttp
    rw [parseVersion, readVersion, if_neg (hversion .http10), if_neg (hversion .http11)]
    exact if_pos (Or.inl hparse)

/-- A line without a space is rejected. -/
theorem parseRequestLine_unseparated (req : HttpRequest) {line : Bytes} (h : space ∉ line) :
    req.parseRequestLine line = .ok (false, req) := by
  have hfirst : findFrom line 0 space = line.length := (findFrom_eq_length (Nat.zero_le _)).mpr h
  simp only [parseRequestLine, hfirst, if_true]

/-- The first word of a line is looked up, and the rest is read if it is the name of a method. -/
theorem parseRequestLine_word (req : HttpRequest) {name rest : Bytes} (h : space ∉ name) :
    req.parseRequestLine (name ++ space :: rest) =
      match req.parseRequestMethod name with
      | (false, req) => .ok (false, req)
      | (true, req) => req.parseTarget (name ++ space :: rest) (name.length + 1) := by
  have hline : name ++ space :: rest = [] ++ (name ++ space :: rest) := rfl
  have hzero : 0 = ([] : Bytes).length := rfl
  have hfirst : findFrom (name ++ space :: rest) 0 space = name.length := by
    rw [findFrom_separator hline hzero h, Nat.zero_add]
  have hname : window (name ++ space :: rest) 0 name.length = name := window_middle hline rfl (Nat.zero_add _).symm
  have hinside : ¬ name.length = (name ++ space :: rest).length := by
    rw [List.length_append, List.length_cons]
    omega
  rw [parseRequestLine]
  simp only [hfirst, hname]
  exact if_neg hinside

/-- A line whose first word is not the name of a method is rejected. -/
theorem parseRequestLine_unknownMethod (req : HttpRequest) {name rest : Bytes} (h : space ∉ name)
    (hunknown : methodOf name = none) : req.parseRequestLine (name ++ space :: rest) = .ok (false, req) := by
  simp only [parseRequestLine_word req h, parseRequestMethod, hunknown]

/-- A line with a method and no second space is rejected. -/
theorem parseRequestLine_untargeted (req : HttpRequest) (method : Method) {rest : Bytes} (h : space ∉ rest) :
    req.parseRequestLine (methodName method ++ space :: rest) = .ok (false, { req with method }) := by
  have hbehind : space ∉ (methodName method ++ space :: rest).drop ((methodName method).length + 1) := by
    rw [← List.drop_drop, List.drop_left]
    exact h
  have hsecond := (findFrom_eq_length (by simp)).mpr hbehind
  simp only [parseRequestLine_word req (space_notMem_methodName method), parseRequestMethod, methodOf_methodName,
    parseTarget, hsecond, if_true]

/-- A line with a method and a target is split at the target, and the rest is compared. -/
theorem parseRequestLine_targeted (req : HttpRequest) (method : Method) {target rest : Bytes} (h : space ∉ target) :
    req.parseRequestLine (methodName method ++ space :: (target ++ space :: rest)) =
      (splitTarget { req with method } target rest).map fun req => req.readVersion rest := by
  have hline : methodName method ++ space :: (target ++ space :: rest) =
      (methodName method ++ [space]) ++ (target ++ space :: rest) := by simp
  have hbehind : methodName method ++ space :: (target ++ space :: rest) =
      (methodName method ++ [space] ++ target ++ [space]) ++ rest := by simp
  have hstart : (methodName method).length + 1 = (methodName method ++ [space]).length := by simp
  have hsecond := findFrom_separator hline hstart h
  have hinside : ¬ (methodName method).length + 1 + target.length =
      (methodName method ++ space :: (target ++ space :: rest)).length := by
    simp only [List.length_append, List.length_cons]
    omega
  have hlast : (methodName method).length + 1 + target.length + 1 =
      (methodName method ++ [space] ++ target ++ [space]).length := by
    simp only [List.length_append, List.length_singleton]
  have hversion (req : HttpRequest) := req.parseVersion_rest hbehind hlast
  simp only [parseRequestLine_word req (space_notMem_methodName method), parseRequestMethod, methodOf_methodName,
    parseTarget, hsecond, if_neg hinside, assignTarget_split _ hline hstart, hversion]

/-- The rest of the line is accepted exactly if it is one of the versions. -/
theorem readVersion_fst (req : HttpRequest) (rest : Bytes) :
    (req.readVersion rest).1 = true ↔ ∃ version : WrittenVersion, rest = version.text := by
  rw [readVersion]
  split_ifs with hzero hone
  · exact iff_of_true rfl ⟨.http10, hzero⟩
  · exact iff_of_true rfl ⟨.http11, hone⟩
  · refine iff_of_false (by simp) ?_
    rintro ⟨version, hversion⟩
    cases version with
    | http10 => exact hzero hversion
    | http11 => exact hone hversion

/-- A version is read back. -/
theorem readVersion_text (req : HttpRequest) (version : WrittenVersion) :
    req.readVersion version.text = (true, { req with version := version.version }) := by
  cases version <;> rfl

/-- A line of the grammar is accepted, and it determines everything but the headers, where the
query stays as it was if the target has none. -/
theorem parseRequestLine_requestLineText (req : HttpRequest) (method : Method) {target : Bytes}
    (version : WrittenVersion) (h : space ∉ target) :
    req.parseRequestLine (requestLineText method target version) = .ok (true,
      { method, path := target.takeWhile (· ≠ questionMark), version := version.version, headers := req.headers
        query := if questionMark ∈ target then (target.dropWhile (· ≠ questionMark)).drop 1 else req.query }) := by
  have hrest : questionMark ∉ version.text := by cases version <;> decide
  rw [requestLineText, parseRequestLine_targeted req method h, splitTarget]
  by_cases hmark : questionMark ∈ target
  · rw [if_pos hmark, if_pos hmark]
    exact congrArg Except.ok (readVersion_text _ version)
  · have hpath : target.takeWhile (· ≠ questionMark) = target :=
      List.takeWhile_eq_self_iff.mpr fun b hb => decide_eq_true fun heq => hmark (heq ▸ hb)
    rw [if_neg hmark, if_neg hrest, if_neg hmark, hpath]
    exact congrArg Except.ok (readVersion_text _ version)

/-- An accepted line is one of the grammar. -/
theorem exists_requestLineText {req req' : HttpRequest} {line : Bytes}
    (hcall : req.parseRequestLine line = .ok (true, req')) :
    ∃ method target version, space ∉ target ∧ line = requestLineText method target version := by
  cases lineShape line with
  | unseparated h =>
    rw [parseRequestLine_unseparated req h] at hcall
    cases hcall
  | unknownMethod name rest htext h hunknown =>
    rw [htext, parseRequestLine_unknownMethod req h hunknown] at hcall
    cases hcall
  | untargeted method rest htext h =>
    rw [htext, parseRequestLine_untargeted req method h] at hcall
    cases hcall
  | targeted method target rest htext h =>
    rw [htext, parseRequestLine_targeted req method h] at hcall
    cases hsplit : splitTarget { req with method } target rest with
    | error e =>
      rw [hsplit] at hcall
      cases hcall
    | ok split =>
      rw [hsplit] at hcall
      have hread : split.readVersion rest = (true, req') := Except.ok.inj hcall
      obtain ⟨version, rfl⟩ := (readVersion_fst split rest).mp (hread ▸ rfl)
      exact ⟨method, target, version, h, htext⟩

/-- When the call returns, it has accepted exactly the lines of the grammar, and of an accepted line
it has the method, the path up to the first question mark, the query behind it, and the version. -/
theorem parseRequestLine_grammar {req req' : HttpRequest} {line : Bytes} {accepted : Bool}
    (hcall : req.parseRequestLine line = .ok (accepted, req')) :
    (accepted = true ↔ ∃ method target version, space ∉ target ∧ line = requestLineText method target version) ∧
      ∀ method target version, space ∉ target → line = requestLineText method target version →
        req'.method = method ∧ req'.version = version.version ∧ req'.path = target.takeWhile (· ≠ questionMark) ∧
          (questionMark ∈ target → req'.query = (target.dropWhile (· ≠ questionMark)).drop 1) := by
  have hwritten {method : Method} {target : Bytes} {version : WrittenVersion} (htarget : space ∉ target)
      (hline : line = requestLineText method target version) := hcall.symm.trans
    (hline ▸ parseRequestLine_requestLineText req method version htarget)
  refine ⟨⟨fun haccepted => ?_, ?_⟩, fun method target version htarget hline => ?_⟩
  · rw [haccepted] at hcall
    exact exists_requestLineText hcall
  · rintro ⟨method, target, version, htarget, hline⟩
    exact (Prod.mk.inj (Except.ok.inj (hwritten htarget hline))).1
  · obtain rfl := (Prod.mk.inj (Except.ok.inj (hwritten htarget hline))).2
    exact ⟨rfl, rfl, rfl, fun hmark => if_pos hmark⟩

/-- A target with a second question mark in its query. -/
theorem parseRequestLine_grammar_twoMarks : ∃ req', (new .kPut .kUnknown).parseRequestLine
    (ascii "GET /a?b?c HTTP/1.0") =
    .ok (true, req') ∧ req'.method = .kGet ∧ req'.version = .kHttp10 ∧ req'.path = ascii "/a" ∧
      req'.query = ascii "b?c" := by
  have hspace : space ∉ ascii "/a?b?c" := by decide
  have hmark : questionMark ∈ ascii "/a?b?c" := by decide
  have hcall := parseRequestLine_requestLineText (new .kPut .kUnknown) .kGet .http10 hspace
  obtain ⟨hmethod, hversion, hpath, hquery⟩ := (parseRequestLine_grammar hcall).2 .kGet _ .http10 hspace rfl
  exact ⟨_, hcall, hmethod, hversion, hpath.trans (by decide), (hquery hmark).trans (by decide)⟩

/-- The ranges from which the path and the query are assigned. -/
def assignedRanges (line : Bytes) (start query space : ℕ) : List (ℕ × ℕ) :=
  if query ≠ line.length then [(start, query), (query + 1, space)] else [(start, space)]

/-- The range that is compared with the beginning of a version, if the length is right. -/
def comparedRange (line : Bytes) (start : ℕ) : List (ℕ × ℕ) :=
  if start + 8 = line.length then [(start, line.length - 1)] else []

/-- The ranges that are handed on behind the method; nothing follows an exception. -/
def targetRanges (line : Bytes) (start : ℕ) : List (ℕ × ℕ) :=
  let second := findFrom line start space
  if second = line.length then []
  else
    let assigned := assignedRanges line start (findFrom line start questionMark) second
    if assigned.all fun range => range.1 ≤ range.2 then assigned ++ comparedRange line (second + 1) else assigned

/-- The ranges which `ParseRequestLine` hands to strings and to `std::equal`, in order. -/
def handedRanges (line : Bytes) : List (ℕ × ℕ) :=
  let first := findFrom line 0 space
  if first = line.length then []
  else (0, first) :: if (methodOf (window line 0 first)).isSome then targetRanges line (first + 1) else []

/-- Every range that is handed on is ordered and lies in the line, and the call returns. -/
structure SafeOn (req : HttpRequest) (line : Bytes) : Prop where
  ordered : ∀ range ∈ handedRanges line, range.1 ≤ range.2 ∧ range.2 ≤ line.length
  returns : ∃ result, req.parseRequestLine line = .ok result

/-- A method and a target without a question mark, and a question mark behind the target. -/
def MarkBehindTarget (line : Bytes) : Prop :=
  ∃ method target rest, line = methodName method ++ space :: (target ++ space :: rest) ∧
    space ∉ target ∧ questionMark ∉ target ∧ questionMark ∈ rest

/-- A line without a space hands on nothing. -/
theorem handedRanges_unseparated {line : Bytes} (h : space ∉ line) : handedRanges line = [] := by
  have hfirst : findFrom line 0 space = line.length := (findFrom_eq_length (Nat.zero_le _)).mpr h
  simp only [handedRanges, hfirst, if_true]

/-- The first word of a line is handed on. -/
theorem handedRanges_word {name rest : Bytes} (h : space ∉ name) :
    handedRanges (name ++ space :: rest) = (0, name.length) ::
      if (methodOf name).isSome then targetRanges (name ++ space :: rest) (name.length + 1) else [] := by
  have hline : name ++ space :: rest = [] ++ (name ++ space :: rest) := rfl
  have hzero : 0 = ([] : Bytes).length := rfl
  have hfirst : findFrom (name ++ space :: rest) 0 space = name.length := by
    rw [findFrom_separator hline hzero h, Nat.zero_add]
  have hname : window (name ++ space :: rest) 0 name.length = name := window_middle hline rfl (Nat.zero_add _).symm
  have hinside : ¬ name.length = (name ++ space :: rest).length := by
    rw [List.length_append, List.length_cons]
    omega
  simp only [handedRanges, hfirst, if_neg hinside, hname]

/-- Unless the first question mark stands behind the target, the ranges lie in order in the line. -/
theorem targetRanges_ordered {line before target rest : Bytes} {start : ℕ}
    (hline : line = before ++ (target ++ space :: rest)) (hstart : start = before.length) (htarget : space ∉ target)
    (hmark : questionMark ∈ target ∨ questionMark ∉ rest) :
    ∀ range ∈ targetRanges line start, range.1 ≤ range.2 ∧ range.2 ≤ line.length := by
  have hlength := congrArg List.length hline
  simp only [List.length_append, List.length_cons] at hlength
  have hsecond := findFrom_separator hline hstart htarget
  have hinside : ¬ start + target.length = line.length := by omega
  have hassigned : ∀ range ∈ assignedRanges line start (findFrom line start questionMark) (start + target.length),
      range.1 ≤ range.2 ∧ range.2 ≤ line.length := by
    rw [assignedRanges]
    cases markPosition hline hstart with
    | inTarget path query htext hpath hposition =>
      have hin := congrArg List.length htext
      simp only [List.length_append, List.length_cons] at hin
      rw [hposition, if_pos (by omega), List.forall_mem_cons, List.forall_mem_singleton]
      exact ⟨⟨by omega, by omega⟩, by omega, by omega⟩
    | behind hnot hrest hafter hbefore => exact absurd hrest (hmark.resolve_left hnot)
    | absent hnot hrest hposition =>
      rw [if_neg (not_not.mpr hposition), List.forall_mem_singleton]
      exact ⟨by omega, by omega⟩
  have hall : ((assignedRanges line start (findFrom line start questionMark) (start + target.length)).all
      fun range => range.1 ≤ range.2) = true :=
    List.all_eq_true.mpr fun range hrange => decide_eq_true (hassigned range hrange).1
  have hcompared : ∀ range ∈ comparedRange line (start + target.length + 1), range.1 ≤ range.2 ∧
    range.2 ≤ line.length := by
    rw [comparedRange]
    split_ifs with height
    · rw [List.forall_mem_singleton]
      exact ⟨by omega, by omega⟩
    · exact fun range hrange => absurd hrange List.not_mem_nil
  simp only [targetRanges, hsecond, if_neg hinside, if_pos hall]
  exact List.forall_mem_append.mpr ⟨hassigned, hcompared⟩

/-- The call is safe for every line but those with a method and a target whose first question mark
stands behind the target. -/
theorem safeOn_iff (req : HttpRequest) (line : Bytes) : req.SafeOn line ↔ ¬ MarkBehindTarget line := by
  constructor
  · rintro ⟨-, result, hreturns⟩ ⟨method, target, rest, rfl, htarget, hnot, hrest⟩
    rw [parseRequestLine_targeted req method htarget, splitTarget, if_neg hnot, if_pos hrest] at hreturns
    cases hreturns
  · intro hmark
    cases lineShape line with
    | unseparated h =>
      refine ⟨fun range hrange => ?_, _, parseRequestLine_unseparated req h⟩
      rw [handedRanges_unseparated h] at hrange
      exact absurd hrange List.not_mem_nil
    | unknownMethod name rest htext h hunknown =>
      subst htext
      refine ⟨?_, _, parseRequestLine_unknownMethod req h hunknown⟩
      rw [handedRanges_word h, hunknown, Option.isSome_none, if_neg Bool.false_ne_true, List.forall_mem_singleton]
      exact ⟨Nat.zero_le _, by simp⟩
    | untargeted method rest htext h =>
      subst htext
      refine ⟨?_, _, parseRequestLine_untargeted req method h⟩
      have hbehind : space ∉ (methodName method ++ space :: rest).drop ((methodName method).length + 1) := by
        rw [← List.drop_drop, List.drop_left]
        exact h
      have hsecond := (findFrom_eq_length (by simp)).mpr hbehind
      have hnothing : targetRanges (methodName method ++ space :: rest) ((methodName method).length + 1) = [] := by
        simp only [targetRanges, hsecond, if_true]
      rw [handedRanges_word (space_notMem_methodName method), hnothing, ite_self, List.forall_mem_singleton]
      exact ⟨Nat.zero_le _, by simp⟩
    | targeted method target rest htext h =>
      subst htext
      have hcases : questionMark ∈ target ∨ questionMark ∉ rest := by
        by_contra hboth
        obtain ⟨hnot, hrest⟩ := not_or.mp hboth
        exact hmark ⟨method, target, rest, rfl, h, hnot, not_not.mp hrest⟩
      constructor
      · have hline : methodName method ++ space :: (target ++ space :: rest) =
            (methodName method ++ [space]) ++ (target ++ space :: rest) := by simp
        have hstart : (methodName method).length + 1 = (methodName method ++ [space]).length := by simp
        have hranges := targetRanges_ordered hline hstart h hcases
        rw [handedRanges_word (space_notMem_methodName method), methodOf_methodName, Option.isSome_some, if_pos rfl,
          List.forall_mem_cons]
        exact ⟨⟨Nat.zero_le _, by simp⟩, hranges⟩
      · rw [parseRequestLine_targeted req method h, splitTarget]
        split_ifs with hin hbehind
        · exact ⟨_, rfl⟩
        · exact absurd hbehind (hcases.resolve_left hin)
        · exact ⟨_, rfl⟩

/-- A question mark behind the target makes the range of the query end before it begins. -/
theorem not_safeOn_markBehind :
    handedRanges (ascii "GET /a b?c") = [(0, 3), (4, 8), (9, 6)] ∧
      (new .kGet .kUnknown).parseRequestLine (ascii "GET /a b?c") = .error .mk ∧
      ¬ (new .kGet .kUnknown).SafeOn (ascii "GET /a b?c") := by
  have hranges : handedRanges (ascii "GET /a b?c") = [(0, 3), (4, 8), (9, 6)] := by decide
  refine ⟨hranges, by decide +kernel, fun hsafe => ?_⟩
  have hordered := (hsafe.ordered (9, 6) (hranges ▸ by decide)).1
  omega

end HttpRequest

end WebServer.Http
