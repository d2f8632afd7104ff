import WebServer.Http.Fresh
import WebServer.Http.Incremental
import WebServer.Http.Server

/-!
# How the cutting of a stream influences the responses

`answers` lists the responses which a stream asks for, each with the number of bytes behind
the head it belongs to. `MessageCallback` answers at most one head per call, so a head is
answered by the first read after the previous answer which completes it; `served` counts the
heads answered in this way. The responses of a run are always a prefix of `answers`, and
all ways of cutting the stream give the same responses exactly when the stream asks for at
most one.
-/

namespace WebServer.Util

/-- The message a call hands to `Send`. -/
def Call.message : Call → Option Bytes
  | .send message => some message
  | _ => none

namespace Session

/-- The messages handed to `Send` so far. -/
def messages (s : Session) : List Bytes := s.calls.filterMap Call.message

/-- A recorded call adds its message. -/
theorem messages_record (s : Session) (call : Call) :
    (s.record call).messages = s.messages ++ call.message.toList := by
  rw [messages, record_calls, List.filterMap_append]
  cases call <;> rfl

/-- Buffering output hands nothing to `Send`. -/
theorem messages_bufferUnsent (s : Session) (unsent : Bytes) :
    (s.bufferUnsent unsent).messages = s.messages := by
  have hbuffered (outputBuffer : WebServer.Util.IntBuffer) :
    (s.bufferOutput outputBuffer).messages = s.messages := by
    rw [bufferOutput]
    split <;> rfl
  rw [bufferUnsent]
  split
  · exact hbuffered _
  · rfl

/-- `Send` adds its message and no other. -/
theorem messages_send (s : Session) (message : Bytes) (result : SendResult) :
    (s.send message result).messages = s.messages ++ [message] := by
  have hrecord : (s.record (.send message)).messages = s.messages ++ [message] := messages_record _ _
  have hkernel (accepted : Bytes) : ((s.record (.send message)).record (.kernelSend accepted)).messages =
      s.messages ++ [message] := by
    rw [messages_record, hrecord]
    exact List.append_nil _
  rw [send, sendOrBuffer]
  split
  · cases result with
    | accepted count => exact (messages_bufferUnsent _ _).trans (hkernel _)
    | wouldBlock => exact hkernel []
    | failed => exact hkernel []
  · exact (messages_bufferUnsent _ _).trans hrecord

/-- `Shutdown` hands nothing to `Send`. -/
theorem messages_shutdown (s : Session) : s.shutdown.messages = s.messages := by
  have hrequested : ({ s with state := .kDisconnecting }.record .shutdown).messages = s.messages :=
    (messages_record _ _).trans (List.append_nil _)
  rw [shutdown]
  split
  · exact hrequested
  · rw [messages_record, hrequested]
    exact List.append_nil _

end Session

end WebServer.Util

namespace WebServer.Http

open WebServer.Foundation
open WebServer.Util (Bytes Buffer Session SendResult Call Epoller ascii crlf)

namespace HttpServer

/-- Successive nonempty reads, each followed by `MessageCallback`, until a call does not return. -/
def receive (server : HttpServer) : Session → List (Bytes × CallbackInputs) → Session
  | s, [] => s
  | s, (data, inputs) :: reads =>
    match server.handleMessage inputs s (some data) with
    | some s' => server.receive s' reads
    | none => s

/-- The reads are nonempty and make up the stream. -/
structure Cuts (stream : Bytes) (reads : List (Bytes × CallbackInputs)) : Prop where
  nonempty : ∀ read ∈ reads, read.1 ≠ []
  flatten : (reads.map Prod.fst).flatten = stream

/-- The responses a stream asks for, each with the number of bytes behind its head. An error
and a response that closes the connection come last. -/
def answersFrom (server : HttpServer) : ℕ → HttpContent → Bytes → List (ℕ × Bytes)
  | 0, _, _ => []
  | fuel + 1, content, text =>
    match content.parseBytes text with
    | some (.returned false _ rest) => [(rest.length, badRequest)]
    | some (.returned true content rest) =>
      if content.getCompleteRequest then
        let response := server.response content.request 0
        (rest.length, response.text) ::
          if response.closeConnection then [] else server.answersFrom fuel (.new .kGet .kUnknown) rest
      else []
    | _ => []

/-- The responses the stream of a fresh connection asks for. -/
def answers (server : HttpServer) (stream : Bytes) : List (ℕ × Bytes) :=
  server.answersFrom (stream.length + 1) (.new .kGet .kUnknown) stream

/-- The number of heads answered when each read answers at most one head, and only one whose
end it has reached: `left` bytes are behind the head, and the later reads are behind this one. -/
def served : List ℕ → List Bytes → ℕ
  | [], _ => 0
  | _ :: _, [] => 0
  | left :: ends, _ :: reads => if reads.flatten.length ≤ left then served ends reads + 1 else served
      (left :: ends) reads

/-- The response callback is a function of the request: it does not depend on the
indeterminate status code it finds. -/
def Determined (server : HttpServer) : Prop :=
  ∀ request close status status',
    server.responseCallback request (.new close status) = server.responseCallback request (.new close status')

/-- The parser in front of some bytes, and the messages handed to `Send` so far. -/
structure Facing (s : Session) (content : HttpContent) (text : Bytes) (messages : List Bytes) : Prop where
  active : s.isShutdown = false
  content : s.content = content
  bytes : s.inputBuffer.bytes = text
  messages : s.messages = messages

/-- The connection ignores further input, having sent these messages. -/
structure Silent (s : Session) (messages : List Bytes) : Prop where
  shutdown : s.isShutdown = true
  messages : s.messages = messages

/-- Sending a message and shutting down silences the connection. -/
theorem silent_shutdown (s : Session) (message : Bytes) (result : SendResult) :
    Silent (s.send message result).shutdown (s.messages ++ [message]) where
  shutdown := by
    rw [Session.isShutdown, (Session.sameInput_shutdown _).state]
    rfl
  messages := by rw [Session.messages_shutdown, Session.messages_send]

/-- A rejected head is answered with 400, which silences the connection. -/
theorem parseInput_rejected (server : HttpServer) (inputs : CallbackInputs) {s : Session}
    {content content' : HttpContent}
    {text rest : Bytes} {messages : List Bytes} (h : Facing s content text messages)
    (hcall : content.parseBytes text = some (.returned false content' rest))
    (hopen : content'.getCompleteRequest = false) :
    ∃ s', server.parseInput inputs s = some s' ∧ Silent s' (messages ++ [badRequest]) := by
  rw [← h.content, ← h.bytes] at hcall
  obtain ⟨buffer, hparse, -⟩ := HttpContent.parseContent_of_parseBytes hcall
  refine ⟨_, ?_, h.messages ▸ silent_shutdown { s with content := content', inputBuffer := buffer } badRequest
    inputs.badRequestSend⟩
  simp only [parseInput, h.active, Bool.false_eq_true, if_false, hparse]
  rw [answer_rejected hopen]

/-- A partial head is left in front of the parser. -/
theorem parseInput_waits (server : HttpServer) (inputs : CallbackInputs) {s : Session}
    {content content' : HttpContent}
    {text rest : Bytes} {messages : List Bytes} (h : Facing s content text messages)
    (hcall : content.parseBytes text = some (.returned true content' rest))
    (hopen : content'.getCompleteRequest = false) :
    ∃ s', server.parseInput inputs s = some s' ∧ Facing s' content' rest messages := by
  rw [← h.content, ← h.bytes] at hcall
  obtain ⟨buffer, hparse, hbuffer⟩ := HttpContent.parseContent_of_parseBytes hcall
  refine ⟨{ s with content := content', inputBuffer := buffer }, ?_, h.active, rfl, hbuffer, h.messages⟩
  simp only [parseInput, h.active, Bool.false_eq_true, if_false, hparse]
  exact congrArg some (answerComplete_of_incomplete hopen)

/-- A complete request is answered, and the parser faces what is behind it, unless the response
closes the connection. -/
theorem answerComplete_complete {server : HttpServer} {inputs : CallbackInputs} {s : Session}
    {content : HttpContent}
    {rest : Bytes} {messages : List Bytes} (h : Facing s content rest messages)
    (hcomplete : content.getCompleteRequest = true) :
    let response := server.response content.request inputs.statusCode
    if response.closeConnection then Silent (server.answerComplete inputs s) (messages ++ [response.text])
    else Facing (server.answerComplete inputs s) (.new inputs.method inputs.version) rest
      (messages ++ [response.text]) := by
  intro response
  obtain ⟨hactive, rfl, hbytes, rfl⟩ := h
  rw [answerComplete, if_pos hcomplete, dealWithRequest]
  by_cases hclose : response.closeConnection
  · rw [if_pos hclose, if_pos hclose]
    have hsilent := silent_shutdown s response.text inputs.responseSend
    exact ⟨hsilent.shutdown, hsilent.messages⟩
  · rw [if_neg hclose, if_neg hclose]
    have hinput := Session.sameInput_send s response.text inputs.responseSend
    exact ⟨by rw [← hactive, Session.isShutdown, Session.isShutdown, hinput.state], rfl,
      hinput.inputBuffer ▸ hbytes, Session.messages_send _ _ _⟩

/-- A completed head is answered. -/
theorem parseInput_complete (server : HttpServer) (inputs : CallbackInputs) {s : Session}
    {content content' : HttpContent}
    {text rest : Bytes} {messages : List Bytes} (h : Facing s content text messages)
    (hcall : content.parseBytes text = some (.returned true content' rest))
    (hcomplete : content'.getCompleteRequest = true) :
    let response := server.response content'.request inputs.statusCode
    ∃ s', server.parseInput inputs s = some s' ∧
      if response.closeConnection then Silent s' (messages ++ [response.text])
      else Facing s' (.new inputs.method inputs.version) rest (messages ++ [response.text]) := by
  rw [← h.content, ← h.bytes] at hcall
  obtain ⟨buffer, hparse, hbuffer⟩ := HttpContent.parseContent_of_parseBytes hcall
  have hfacing : Facing { s with content := content', inputBuffer := buffer } content' rest messages :=
    ⟨h.active, rfl, hbuffer, h.messages⟩
  refine ⟨_, ?_, answerComplete_complete hfacing hcomplete⟩
  simp only [parseInput, h.active, Bool.false_eq_true, if_false, hparse]
  rfl

/-- An exception in the parser ends the run. -/
theorem parseInput_threw {server : HttpServer} {inputs : CallbackInputs} {s : Session} {content : HttpContent}
    {text : Bytes} {messages : List Bytes} (h : Facing s content text messages)
    (hcall : content.parseBytes text = some .threw) : server.parseInput inputs s = none := by
  rw [← h.content, ← h.bytes, ← HttpContent.parseContent_bytes] at hcall
  obtain ⟨outcome, hparse, hthrew⟩ := Option.map_eq_some_iff.mp hcall
  cases outcome with
  | returned parseok content' buffer => cases hthrew
  | threw => simp only [parseInput, h.active, Bool.false_eq_true, if_false, hparse]

/-- A nonempty read is appended to the input buffer and parsed. -/
theorem handleMessage_nonempty (server : HttpServer) (inputs : CallbackInputs) {s : Session} {content : HttpContent}
    {text data : Bytes} {messages : List Bytes} (h : Facing s content text messages) (hdata : data ≠ []) :
    ∃ t, server.handleMessage inputs s (some data) = server.parseInput inputs t ∧
      Facing t content (text ++ data) messages := by
  cases data with
  | nil => exact absurd rfl hdata
  | cons first rest =>
    refine ⟨_, rfl, ?_⟩
    have hbytes : (s.inputBuffer.readFd (first :: rest)).bytes = text ++ first :: rest := by
      rw [Buffer.bytes_readFd, h.bytes]
    split
    · exact ⟨h.active, h.content, hbytes, h.messages⟩
    · exact ⟨h.active, h.content, hbytes, h.messages⟩

/-- A silent connection stays silent. -/
theorem handleMessage_silent (server : HttpServer) (inputs : CallbackInputs) {s : Session} {data : Bytes}
    {messages : List Bytes} (h : Silent s messages) (hdata : data ≠ []) :
    ∃ s', server.handleMessage inputs s (some data) = some s' ∧ Silent s' messages := by
  cases data with
  | nil => exact absurd rfl hdata
  | cons first rest =>
    have hstamped (t : Session) (ht : Silent t messages) : ∃ s', server.parseInput inputs t = some s' ∧
        Silent s' messages := by
      refine ⟨t, ?_, ht⟩
      rw [parseInput, if_pos ht.shutdown]
    apply hstamped
    split
    · exact ⟨h.shutdown, h.messages⟩
    · exact ⟨h.shutdown, h.messages⟩

/-- After `Shutdown` no read produces a response. -/
theorem silent_receive {server : HttpServer} {s : Session} {messages : List Bytes} (h : Silent s messages)
    {reads : List (Bytes × CallbackInputs)} (hnonempty : ∀ read ∈ reads, read.1 ≠ []) :
    (server.receive s reads).messages = messages := by
  induction reads generalizing s with
  | nil => exact h.messages
  | cons read reads ih =>
    obtain ⟨hdata, hreads⟩ := List.forall_mem_cons.mp hnonempty
    obtain ⟨s', hstep, hsilent⟩ := handleMessage_silent server read.2 h hdata
    rw [receive, hstep]
    exact ih hsilent hreads

/-- Only what the parser makes of the text matters for the answers. -/
theorem answersFrom_congr (server : HttpServer) (fuel : ℕ) {content content' : HttpContent} {text text' : Bytes}
    (h : content.parseBytes text = content'.parseBytes text') :
    server.answersFrom fuel content text = server.answersFrom fuel content' text' := by
  cases fuel with
  | zero => rfl
  | succ fuel => rw [answersFrom, answersFrom, h]

/-- An exception ends the answers. -/
theorem answersFrom_threw {server : HttpServer} {content : HttpContent} {text : Bytes} (fuel : ℕ)
    (hcall : content.parseBytes text = some .threw) : server.answersFrom (fuel + 1) content text = [] := by
  simp only [answersFrom, hcall]

/-- A partial head asks for no response. -/
theorem answersFrom_waits {server : HttpServer} {content content' : HttpContent} {text rest : Bytes} (fuel : ℕ)
    (hcall : content.parseBytes text = some (.returned true content' rest))
    (hopen : content'.getCompleteRequest = false) : server.answersFrom (fuel + 1) content text = [] := by
  simp only [answersFrom, hcall, hopen, Bool.false_eq_true, if_false]

/-- A rejected head asks for the 400 response, and ends the answers. -/
theorem answersFrom_rejected {server : HttpServer} {content content' : HttpContent} {text rest : Bytes} (fuel : ℕ)
    (hcall : content.parseBytes text = some (.returned false content' rest)) :
    server.answersFrom (fuel + 1) content text = [(rest.length, badRequest)] := by
  simp only [answersFrom, hcall]

/-- A completed head asks for the response of the callback. -/
theorem answersFrom_complete {server : HttpServer} {content content' : HttpContent} {text rest : Bytes} (fuel : ℕ)
    (hcall : content.parseBytes text = some (.returned true content' rest))
    (hcomplete : content'.getCompleteRequest = true) :
    server.answersFrom (fuel + 1) content text = (rest.length, (server.response content'.request 0).text) ::
      if (server.response content'.request 0).closeConnection then []
      else server.answersFrom fuel (.new .kGet .kUnknown) rest := by
  simp only [answersFrom, hcall, hcomplete, if_true]

/-- Behind a partial line a head ends only within what arrives later. -/
theorem length_settled_lt {text more rest : Bytes} {finish : ℕ} (hsearch : searchIdx crlf text = none)
    (hmore : searchIdx crlf (text ++ more) = some finish)
    (hlength : rest.length + (finish + 2) ≤ (text ++ more).length) : rest.length < more.length := by
  by_contra hlong
  have hinside : finish + 2 ≤ text.length := by
    rw [List.length_append] at hlength
    omega
  have hstands : crlf <+: text.drop finish := by
    have hpre := searchIdx_standsAt hmore
    rw [List.drop_append_of_le_length (by omega)] at hpre
    apply List.prefix_of_prefix_length_le hpre (List.prefix_append _ _)
    rw [List.length_drop]
    exact Nat.le_sub_of_add_le' hinside
  exact (searchIdx_eq_none (by decide)).mp hsearch (hstands.isInfix.trans (List.drop_suffix _ _).isInfix)

/-- Nothing asked for, nothing served. -/
@[simp] theorem served_nil (reads : List Bytes) : served [] reads = 0 := by cases reads <;> rfl

/-- A read that does not reach the end of the next head serves nothing. -/
theorem served_cons_of_lt {ends : List ℕ} {data : Bytes} {reads : List Bytes}
    (h : ∀ left ∈ ends.head?, left < reads.flatten.length) : served ends (data :: reads) = served ends reads := by
  cases ends with
  | nil => rw [served_nil, served_nil]
  | cons left ends => rw [served, if_neg (Nat.not_le.mpr (h left rfl))]

/-- A read that reaches the end of the next head serves it. -/
theorem served_cons_of_le {left : ℕ} {ends : List ℕ} {data : Bytes} {reads : List Bytes}
    (h : reads.flatten.length ≤ left) : served (left :: ends) (data :: reads) = served ends reads + 1 := by
  rw [served, if_pos h]

/-- While the parser waits for the end of a line, the next head ends within what arrives later. -/
theorem head_answersFrom_lt {server : HttpServer} {content : HttpContent} {text more : Bytes}
    (hreads : content.ReadsLines) (hsearch : searchIdx crlf text = none) (fuel : ℕ) :
    ∀ left ∈ ((server.answersFrom fuel content (text ++ more)).map Prod.fst).head?, left < more.length := by
  cases fuel with
  | zero => simp [answersFrom]
  | succ fuel =>
    cases HttpContent.lineOutcome hreads (text ++ more) with
    | threw hcall => simp [answersFrom_threw fuel hcall]
    | waits content' rest hcall hreads' hnone hle => simp [answersFrom_waits fuel hcall hreads'.not_complete]
    | settles parseok content' rest finish hcall hcomplete hmore hle =>
      have hlt := length_settled_lt hsearch hmore hle
      cases parseok with
      | false => simpa [answersFrom_rejected fuel hcall] using hlt
      | true => simpa [answersFrom_complete fuel hcall hcomplete] using hlt

/-- The parser does not see the indeterminate members of a new request, and neither do the
answers. -/
theorem answersFrom_new (server : HttpServer) (fuel : ℕ) (method method' : Method) (version version' : Version)
    (text : Bytes) : server.answersFrom fuel (.new method version) text =
      server.answersFrom fuel (.new method' version') text := by
  rcases HttpContent.parseBytes_new method method' version version' text with
    hsame | hsearch | ⟨content, content', rest, hfirst, hsecond⟩
  · exact answersFrom_congr server fuel hsame
  · cases fuel with
    | zero => rfl
    | succ fuel =>
      have hwaits (method : Method) (version : Version) :
          server.answersFrom (fuel + 1) (.new method version) text = [] := by
        have hreads : (HttpContent.new method version).ReadsLines := Or.inl rfl
        have hcall : (HttpContent.new method version).parseBytes text =
            some (.returned true (.new method version) text) := by
          rw [HttpContent.parseBytes_eq (Or.inl hreads), HttpContent.bytesIteration_unterminated hreads hsearch]
        exact answersFrom_waits fuel hcall hreads.not_complete
      rw [hwaits, hwaits]
  · cases fuel with
    | zero => rfl
    | succ fuel => rw [answersFrom_rejected fuel hfirst, answersFrom_rejected fuel hsecond]

/-- The responses of a run are the first answers of the stream, as many as its reads serve. -/
theorem messages_receive {server : HttpServer} (hdetermined : server.Determined) {fuel : ℕ} {s : Session}
    {content : HttpContent} {text : Bytes} {messages : List Bytes} (hfacing : Facing s content text messages)
    (hreads : content.ReadsLines) {reads : List (Bytes × CallbackInputs)}
    (hnonempty : ∀ read ∈ reads, read.1 ≠ [])
    (hfuel : (text ++ (reads.map Prod.fst).flatten).length < fuel) :
    (server.receive s reads).messages = messages ++
      ((server.answersFrom fuel content (text ++ (reads.map Prod.fst).flatten)).map Prod.snd).take
        (served ((server.answersFrom fuel content (text ++ (reads.map Prod.fst).flatten)).map Prod.fst)
          (reads.map Prod.fst)) := by
  induction reads generalizing fuel s content text messages with
  | nil =>
    have hzero (ends : List ℕ) : served ends [] = 0 := by cases ends <;> rfl
    rw [receive, List.map_nil, hzero, List.take_zero, List.append_nil, hfacing.messages]
  | cons read reads ih =>
    obtain ⟨hdata, hrest⟩ := List.forall_mem_cons.mp hnonempty
    obtain ⟨t, hhandle, hnow⟩ := handleMessage_nonempty server read.2 hfacing hdata
    rw [receive, hhandle]
    rw [List.map_cons, List.flatten_cons, ← List.append_assoc] at hfuel ⊢
    have happend := content.parseBytes_append (text ++ read.1) (reads.map Prod.fst).flatten
    cases fuel with
    | zero => omega
    | succ fuel =>
      cases HttpContent.lineOutcome hreads (text ++ read.1) with
      | threw hcall =>
        rw [hcall] at happend
        rw [parseInput_threw hnow hcall, answersFrom_threw fuel happend]
        simp [hfacing.messages]
      | waits content' rest hcall hreads' hnone hle =>
        have hopen := hreads'.not_complete
        have hcontinue : content.parseBytes (text ++ read.1 ++ (reads.map Prod.fst).flatten) =
            content'.parseBytes (rest ++ (reads.map Prod.fst).flatten) := by
          rw [happend, hcall]
          simp [ParseOutcome.continueBytes, hopen]
        obtain ⟨s', hparse, hfacing'⟩ := parseInput_waits server read.2 hnow hcall hopen
        have hshort : (rest ++ (reads.map Prod.fst).flatten).length < fuel + 1 := by
          rw [List.length_append] at hfuel ⊢
          omega
        rw [hparse, answersFrom_congr server (fuel + 1) hcontinue,
          served_cons_of_lt (head_answersFrom_lt hreads' hnone (fuel + 1))]
        exact ih hfacing' hreads' hrest hshort
      | settles parseok content' rest finish hcall hcomplete hmore hle =>
        have hsettled : content.parseBytes (text ++ read.1 ++ (reads.map Prod.fst).flatten) =
            some (.returned parseok content' (rest ++ (reads.map Prod.fst).flatten)) := by
          rw [happend, hcall]
          simp [ParseOutcome.continueBytes, hcomplete]
        have hreached : (reads.map Prod.fst).flatten.length ≤ (rest ++ (reads.map Prod.fst).flatten).length := by
          rw [List.length_append]
          omega
        cases parseok with
        | false =>
          obtain ⟨s', hparse, hsilent⟩ := parseInput_rejected server read.2 hnow hcall hcomplete
          rw [hparse, answersFrom_rejected fuel hsettled, List.map_singleton, List.map_singleton,
            served_cons_of_le hreached, served_nil]
          exact silent_receive hsilent hrest
        | true =>
          obtain ⟨s', hparse, hanswered⟩ := parseInput_complete server read.2 hnow hcall hcomplete
          have hresponse : server.response content'.request read.2.statusCode =
            server.response content'.request 0 :=
            hdetermined _ _ _ _
          rw [hresponse] at hanswered
          rw [hparse, answersFrom_complete fuel hsettled hcomplete, List.map_cons, List.map_cons,
            served_cons_of_le hreached, List.take_succ_cons]
          by_cases hclose : (server.response content'.request 0).closeConnection
          · rw [if_pos hclose] at hanswered
            simp only [if_pos hclose, List.map_nil, served_nil, List.take_zero]
            exact silent_receive hanswered hrest
          · rw [if_neg hclose] at hanswered
            have hshort : (rest ++ (reads.map Prod.fst).flatten).length < fuel := by
              rw [List.length_append] at hfuel ⊢
              omega
            have hlater := ih hanswered (Or.inl rfl) hrest hshort
            rw [answersFrom_new server fuel _ .kGet _ .kUnknown] at hlater
            simp only [if_neg hclose]
            rw [hlater, List.append_assoc]
            rfl

/-- No more heads are served than there are. -/
theorem served_le (ends : List ℕ) (reads : List Bytes) : served ends reads ≤ ends.length := by
  induction reads generalizing ends with
  | nil => cases ends <;> simp [served]
  | cons data reads ih =>
    cases ends with
    | nil => simp
    | cons left ends =>
      by_cases hreached : reads.flatten.length ≤ left
      · rw [served_cons_of_le hreached]
        exact Nat.succ_le_succ (ih ends)
      · rw [served, if_neg hreached]
        exact ih (left :: ends)

/-- A single head is served at the latest by the last read. -/
theorem served_singleton (left : ℕ) {reads : List Bytes} (h : reads ≠ []) : served [left] reads = 1 := by
  induction reads with
  | nil => exact absurd rfl h
  | cons data reads ih =>
    by_cases hreached : reads.flatten.length ≤ left
    · rw [served_cons_of_le hreached, served_nil]
    · rw [served, if_neg hreached]
      apply ih
      rintro rfl
      exact hreached (Nat.zero_le _)

/-- The single bytes make up the stream. -/
theorem flatten_bytewise (stream : Bytes) : (stream.map ([·])).flatten = stream := by
  induction stream with
  | nil => rfl
  | cons byte stream ih => exact congrArg (byte :: ·) ih

/-- Reading the stream byte by byte serves every head. -/
theorem served_bytewise {ends : List ℕ} (stream : Bytes) (hbound : ∀ left ∈ ends, left < stream.length)
    (hends : ends.Pairwise (· > ·)) : served ends (stream.map ([·])) = ends.length := by
  induction stream generalizing ends with
  | nil =>
    cases ends with
    | nil => rfl
    | cons left ends => exact absurd (hbound left List.mem_cons_self) (Nat.not_lt_zero _)
  | cons byte stream ih =>
    have hlength : (stream.map ([·])).flatten.length = stream.length := by rw [flatten_bytewise]
    cases ends with
    | nil => simp
    | cons left ends =>
      obtain ⟨hlater, hends'⟩ := List.pairwise_cons.mp hends
      have hleft : left < stream.length + 1 := hbound left List.mem_cons_self
      rw [List.map_cons]
      by_cases hreached : stream.length ≤ left
      · rw [served_cons_of_le (by rw [hlength]; exact hreached), List.length_cons]
        have hrest : ∀ later ∈ ends, later < stream.length := by
          intro later hmem
          have := hlater later hmem
          omega
        rw [ih hrest hends']
      · rw [served, if_neg (by rw [hlength]; exact hreached)]
        apply ih _ hends
        intro later hmem
        rcases List.mem_cons.mp hmem with rfl | hmem
        · omega
        · have := hlater later hmem
          omega

/-- The heads of a stream end one behind the other, each behind the beginning of the stream. -/
theorem answersFrom_ends {server : HttpServer} (fuel : ℕ) {content : HttpContent} (hreads : content.ReadsLines)
    (text : Bytes) : (∀ left ∈ (server.answersFrom fuel content text).map Prod.fst, left < text.length) ∧
      ((server.answersFrom fuel content text).map Prod.fst).Pairwise (· > ·) := by
  induction fuel generalizing content text with
  | zero => simp [answersFrom]
  | succ fuel ih =>
    cases HttpContent.lineOutcome hreads text with
    | threw hcall => simp [answersFrom_threw fuel hcall]
    | waits content' rest hcall hreads' hnone hle => simp [answersFrom_waits fuel hcall hreads'.not_complete]
    | settles parseok content' rest finish hcall hcomplete hterminated hle =>
      cases parseok with
      | false =>
        rw [answersFrom_rejected fuel hcall]
        simp
        omega
      | true =>
        have hrest : rest.length < text.length := by omega
        rw [answersFrom_complete fuel hcall hcomplete, List.map_cons, List.forall_mem_cons, List.pairwise_cons]
        by_cases hclose : (server.response content'.request 0).closeConnection
        · simp [if_pos hclose, hrest]
        · have hfresh : (HttpContent.new .kGet .kUnknown).ReadsLines := Or.inl rfl
          obtain ⟨hbound, hends⟩ := ih hfresh rest
          rw [if_neg hclose]
          exact ⟨⟨hrest, fun left hmem => (hbound left hmem).trans hrest⟩, hbound, hends⟩

/-- The responses to a stream that arrives on a fresh connection. -/
theorem messages_started {server : HttpServer} (hdetermined : server.Determined) {address fd : ℕ} {now : ℤ}
    {method : Method} {version : Version} {epoller : Epoller} {stream : Bytes}
    {reads : List (Bytes × CallbackInputs)}
    (hcuts : Cuts stream reads) :
    (server.receive (.started address fd now (.new method version) epoller) reads).messages =
      ((server.answers stream).map Prod.snd).take (served ((server.answers stream).map Prod.fst)
        (reads.map Prod.fst)) := by
  have hfacing : Facing (.started address fd now (.new method version) epoller) (.new method version) [] [] :=
    ⟨rfl, rfl, Buffer.bytes_new, rfl⟩
  have hall := messages_receive hdetermined hfacing (Or.inl rfl) hcuts.nonempty (Nat.lt_succ_self _)
  rw [hcuts.flatten, List.nil_append, List.nil_append] at hall
  rw [hall, answersFrom_new server _ method .kGet version .kUnknown]
  rfl

/-- Two runs on one stream give the same responses exactly if their reads serve equally many
heads. -/
theorem messages_eq_iff {server : HttpServer} (hdetermined : server.Determined) {address fd : ℕ} {now : ℤ}
    {method : Method} {version : Version} {epoller : Epoller} {stream : Bytes}
    {reads reads' : List (Bytes × CallbackInputs)} (hcuts : Cuts stream reads) (hcuts' : Cuts stream reads') :
    (server.receive (.started address fd now (.new method version) epoller) reads).messages =
        (server.receive (.started address fd now (.new method version) epoller) reads').messages ↔
      served ((server.answers stream).map Prod.fst) (reads.map Prod.fst) =
        served ((server.answers stream).map Prod.fst) (reads'.map Prod.fst) := by
  have hle := served_le ((server.answers stream).map Prod.fst) (reads.map Prod.fst)
  have hle' := served_le ((server.answers stream).map Prod.fst) (reads'.map Prod.fst)
  rw [messages_started hdetermined hcuts, messages_started hdetermined hcuts']
  constructor
  · intro hsame
    have hlengths := congrArg List.length hsame
    simp only [List.length_take, List.length_map] at hlengths hle hle'
    omega
  · intro hserved
    rw [hserved]

/-- The whole stream may arrive in one read. -/
theorem cuts_whole {stream : Bytes} (hstream : stream ≠ []) (inputs : CallbackInputs) :
    Cuts stream [(stream, inputs)] where
  nonempty := by simpa using hstream
  flatten := by simp

/-- The stream may arrive byte by byte. -/
theorem cuts_bytewise (stream : Bytes) (inputs : CallbackInputs) :
    Cuts stream (stream.map fun byte => ([byte], inputs)) where
  nonempty := by simp
  flatten := by
    rw [List.map_map]
    exact flatten_bytewise stream

/-- All ways of cutting a stream serve equally many heads exactly if it asks for at most one
response: a second head is not served when it arrives together with the first one. -/
theorem served_eq_iff (server : HttpServer) (stream : Bytes) :
    (∀ reads reads', Cuts stream reads → Cuts stream reads' →
      served ((server.answers stream).map Prod.fst) (reads.map Prod.fst) =
        served ((server.answers stream).map Prod.fst) (reads'.map Prod.fst)) ↔
      (server.answers stream).length ≤ 1 := by
  have hfresh : (HttpContent.new .kGet .kUnknown).ReadsLines := Or.inl rfl
  have hends : (∀ left ∈ (server.answers stream).map Prod.fst, left < stream.length) ∧
      ((server.answers stream).map Prod.fst).Pairwise (· > ·) := answersFrom_ends _ hfresh stream
  have hcount : (server.answers stream).length = ((server.answers stream).map Prod.fst).length :=
    (List.length_map _).symm
  rw [hcount]
  generalize (server.answers stream).map Prod.fst = ends at hends ⊢
  cases ends with
  | nil => simp
  | cons left ends =>
    have hstream : stream ≠ [] := List.ne_nil_of_length_pos ((Nat.zero_le _).trans_lt
      (hends.1 left List.mem_cons_self))
    constructor
    · intro hall
      have hwhole : served (left :: ends) [stream] = 1 := by
        rw [served_cons_of_le (Nat.zero_le _)]
        cases ends <;> rfl
      have hbytes := served_bytewise stream hends.1 hends.2
      have hinputs : CallbackInputs := ⟨0, .wouldBlock, .wouldBlock, 0, .kGet, .kUnknown⟩
      have hsame := hall _ _ (cuts_whole hstream hinputs) (cuts_bytewise stream hinputs)
      rw [List.map_map] at hsame
      exact (hbytes.symm.trans (hsame.symm.trans hwhole)).le
    · intro hone reads reads' hcuts hcuts'
      have hnil : ends = [] := List.eq_nil_of_length_eq_zero (Nat.le_zero.mp (Nat.le_of_succ_le_succ hone))
      have hreads {reads : List (Bytes × CallbackInputs)} (h : Cuts stream reads) : reads.map Prod.fst ≠ [] := by
        intro hempty
        exact hstream (h.flatten.symm.trans (congrArg List.flatten hempty))
      rw [hnil, served_singleton left (hreads hcuts), served_singleton left (hreads hcuts')]

/-- The responses depend on the cutting of the stream as follows. Two ways of cutting it give
the same responses exactly if they serve equally many heads, and all ways give the same
responses exactly if the stream asks for at most one response. -/
theorem messages_cut_iff {server : HttpServer} (hdetermined : server.Determined) (address fd : ℕ) (now : ℤ)
    (method : Method) (version : Version) (epoller : Epoller) (stream : Bytes) :
    (∀ reads reads', Cuts stream reads → Cuts stream reads' →
      ((server.receive (.started address fd now (.new method version) epoller) reads).messages =
          (server.receive (.started address fd now (.new method version) epoller) reads').messages ↔
        served ((server.answers stream).map Prod.fst) (reads.map Prod.fst) =
          served ((server.answers stream).map Prod.fst) (reads'.map Prod.fst))) ∧
    ((∀ reads reads', Cuts stream reads → Cuts stream reads' →
      (server.receive (.started address fd now (.new method version) epoller) reads).messages =
        (server.receive (.started address fd now (.new method version) epoller) reads').messages) ↔
      (server.answers stream).length ≤ 1) := by
  refine ⟨fun reads reads' => messages_eq_iff hdetermined, ?_⟩
  rw [← served_eq_iff]
  constructor
  · intro hall reads reads' hcuts hcuts'
    exact (messages_eq_iff hdetermined hcuts hcuts').mp (hall reads reads' hcuts hcuts')
  · intro hall reads reads' hcuts hcuts'
    exact (messages_eq_iff hdetermined hcuts hcuts').mpr (hall reads reads' hcuts hcuts')

/-- A server whose callback answers every request with an empty page. -/
def emptyPageServer : HttpServer := ⟨false, fun _ response => response.setStatusCode .k200OK⟩

/-- A request which keeps the connection open. -/
def shortRequest : Bytes := ascii "GET / HTTP/1.1\r\n\r\n"

/-- The callback sets the status code, whatever it was. -/
theorem determined_emptyPageServer : emptyPageServer.Determined := fun _ _ _ _ => rfl

/-- Every `send()` would block. -/
def blockedInputs : CallbackInputs := ⟨0, .wouldBlock, .wouldBlock, 0, .kGet, .kUnknown⟩

/-- A single request is answered in the same way in one read and byte by byte. -/
theorem messages_shortRequest :
    (emptyPageServer.receive (.started 0 5 0 (.new .kGet .kUnknown) .new)
      [(shortRequest, blockedInputs)]).messages =
      (emptyPageServer.receive (.started 0 5 0 (.new .kGet .kUnknown) .new)
        (shortRequest.map fun byte => ([byte], blockedInputs))).messages := by
  have hone : (emptyPageServer.answers shortRequest).length ≤ 1 := Nat.le_of_eq rfl
  exact (messages_cut_iff determined_emptyPageServer 0 5 0 .kGet .kUnknown .new shortRequest).2.mpr hone _ _
    (cuts_whole (by decide) blockedInputs) (cuts_bytewise shortRequest blockedInputs)

/-- Two requests are both answered when they arrive one after the other, but only the first one
when they arrive together. -/
theorem messages_pipelined : ∃ reads reads', Cuts (shortRequest ++ shortRequest) reads ∧
    Cuts (shortRequest ++ shortRequest) reads' ∧
    (emptyPageServer.receive (.started 0 5 0 (.new .kGet .kUnknown) .new) reads).messages ≠
      (emptyPageServer.receive (.started 0 5 0 (.new .kGet .kUnknown) .new) reads').messages := by
  have hcuts : Cuts (shortRequest ++ shortRequest) [(shortRequest ++ shortRequest, blockedInputs)] :=
    cuts_whole (by decide) blockedInputs
  have hcuts' : Cuts (shortRequest ++ shortRequest) [(shortRequest, blockedInputs),
    (shortRequest, blockedInputs)] :=
    ⟨by decide, by decide⟩
  refine ⟨_, _, hcuts, hcuts', ?_⟩
  have hends : (emptyPageServer.answers (shortRequest ++ shortRequest)).map Prod.fst = [18, 0] := by rfl
  rw [ne_eq, messages_eq_iff determined_emptyPageServer hcuts hcuts', hends]
  decide

end HttpServer

end WebServer.Http
