import WebServer.Http.Exchange
import WebServer.Util.ConnectionReplay
import WebServer.Util.ServerActivity

/-!
# Connections of the HTTP server in a run of the whole server

A run of the server interleaves the steps of its loops and of all connections. Where its callbacks
are those of the HTTP server, each connection goes through the same states, and makes the same
calls, as a connection that is alone with the bytes read on it. So what holds of every run of a
connection holds of each connection in every run of the server.
-/

namespace WebServer.Http.HttpServer

open WebServer.Foundation
open WebServer.Util (Bytes Buffer Session Call SendResult Epoller Events LifecycleEvent Phase Connection TcpServer
  ServerAction Activity Recorded Acted EventLoopThreadPool beforeClose beforeClose_append ascii initialSize)
open WebServer.Util.Session (Replays)

section Replay

variable {server : HttpServer} {inputs : CallbackInputs} {log : List Call} {s t : Session}

/-- `DealWithRequest`. -/
theorem replays_dealWithRequest (h : Replays log s t) (request : HttpRequest) :
    Replays log (server.dealWithRequest request inputs s) (server.dealWithRequest request inputs t) := by
  have hsent := h.send (server.response request inputs.statusCode).text inputs.responseSend
  rw [dealWithRequest, dealWithRequest]
  by_cases hclose : (server.response request inputs.statusCode).closeConnection
  · rw [if_pos hclose, if_pos hclose]
    exact hsent.shutdown
  · rw [if_neg hclose, if_neg hclose]
    exact hsent

/-- The end of `MessageCallback`. -/
theorem replays_answerComplete (h : Replays log s t) :
    Replays log (server.answerComplete inputs s) (server.answerComplete inputs t) := by
  rw [answerComplete, answerComplete, h.connection]
  by_cases hcomplete : s.content.getCompleteRequest
  · rw [if_pos hcomplete, if_pos hcomplete]
    have hdealt : Replays log (server.dealWithRequest s.content.request inputs s)
        (server.dealWithRequest s.content.request inputs t) := replays_dealWithRequest h _
    exact hdealt.setContent (.new inputs.method inputs.version)
  · rw [if_neg hcomplete, if_neg hcomplete]
    exact h

/-- `MessageCallback` behind the parser. -/
theorem replays_answer (h : Replays log s t) (parseok : Bool) :
    Replays log (server.answer inputs parseok s) (server.answer inputs parseok t) := by
  rw [answer, answer]
  cases parseok with
  | true => exact replays_answerComplete h
  | false => exact replays_answerComplete (h.send badRequest inputs.badRequestSend).shutdown

/-- `MessageCallback` behind the update of the timestamp. -/
theorem replays_parseInput (h : Replays log s t) {s' : Session} (hcall : server.parseInput inputs s = some s') :
    ∃ t', server.parseInput inputs t = some t' ∧ Replays log s' t' := by
  have hparsed (content : HttpContent) (inputBuffer : Buffer) := (h.setContent content).setInput inputBuffer
  rw [parseInput] at hcall
  split at hcall
  · next hshutdown =>
    obtain rfl := Option.some.inj hcall
    exact ⟨t, if_pos (h.isShutdown.trans hshutdown), h⟩
  · next hactive =>
    split at hcall
    · next parseok content inputBuffer hparse =>
      obtain rfl := Option.some.inj hcall
      refine ⟨_, ?_, replays_answer (hparsed content inputBuffer) parseok⟩
      have hparse' : t.content.parseContent t.inputBuffer = some (.returned parseok content inputBuffer) := by
        rw [h.connection]
        exact hparse
      rw [parseInput, if_neg (by rw [h.isShutdown]; exact hactive), hparse']
    · cases hcall

/-- `HandleMessage`. -/
theorem replays_handleMessage (h : Replays log s t) {s' : Session} {data : Option Bytes}
    (hcall : server.handleMessage inputs s data = some s') :
    ∃ t', server.handleMessage inputs t data = some t' ∧ Replays log s' t' := by
  cases data with
  | none =>
    obtain rfl := Option.some.inj hcall
    exact ⟨t, rfl, h⟩
  | some bytes =>
    cases bytes with
    | nil =>
      obtain rfl := Option.some.inj hcall
      exact ⟨t.handleClose, rfl, h.handleClose⟩
    | cons first rest =>
      have hbuffer : t.inputBuffer = s.inputBuffer := by rw [h.connection]
      have hread := h.setInput (s.inputBuffer.readFd (first :: rest))
      rw [handleMessage, messageCallback] at hcall ⊢
      rw [hbuffer]
      split at hcall
      · next hauto =>
        rw [if_pos hauto]
        exact replays_parseInput (hread.setTimestamp inputs.now) hcall
      · next hauto =>
        rw [if_neg hauto]
        exact replays_parseInput hread hcall

end Replay

variable {Loop : Type}

/-- The activity is one of the HTTP server: its connect callback makes no calls, its message callback is
`MessageCallback`, and the idle timer is set by the connect callback. -/
def Served (server : HttpServer) (epoller : Epoller) (c : Connection Loop) : Activity → Prop
  | .establish calls => calls = []
  | .handleMessage data calls =>
    ∃ inputs, server.handleMessage inputs (c.session epoller) data =
      some ((c.session epoller).handleMessage calls data)
  | .shutdown => ∃ loop, .connectionEstablished loop ∈ c.history
  | _ => True

/-- The callbacks in a step are those of the HTTP server. -/
def Serves [DecidableEq Loop] (server : HttpServer) (s : TcpServer Loop) (action : ServerAction Loop) : Prop :=
  ∀ id c activity, s.performed id action = some (c, activity) → server.Served (s.epollers c.loop) c activity

/-- The connection is in a state which it reaches when it is alone, with these calls and bytes. -/
def AsAlone (server : HttpServer) (id : ℕ) (c : Connection Loop) (log : List Call) (read : Bytes) : Prop :=
  ∃ now content events t, run server.connectionStep (.started id c.channel.fd now content .new) events = some t ∧
    t.toTcpConnection = c.toTcpConnection ∧ t.calls = log ∧ arrived events = read

/-- A call of `Shutdown`, or what it does. -/
def EndsOutput (call : Call) : Prop := call = .shutdown ∨ ∃ buffered, call = .kernelShutdown buffered

/-- The connection was as if it were alone until it was closed and destructed, and was at most shut down since. -/
def Outlived (Loop : Type) (server : HttpServer) (id : ℕ) (log : List Call) (read : Bytes) : Prop :=
  ∃ (d : Connection Loop) (earlier later : List Call), server.AsAlone id d earlier read ∧ .close ∈ earlier ∧
    log = earlier ++ later ∧ ∀ call ∈ later, EndsOutput call

/-- What is known of a connection in a phase: it is new, it is as if it were alone, or it was so until it was
destructed. -/
def Follows (server : HttpServer) (id : ℕ) (c : Connection Loop) (log : List Call) (read : Bytes) : Phase → Prop
  | .free => False
  | .accepted => log = [] ∧ read = [] ∧
    ∃ now content, c.toTcpConnection = (Session.new id c.channel.fd now content .new).toTcpConnection
  | .destructed | .closed => server.Outlived Loop id log read
  | _ => server.AsAlone id c log read

variable {server : HttpServer} {id : ℕ} {c c' : Connection Loop} {log : List Call} {read : Bytes}
  {epoller : Epoller}

/-- A connection that was established is as if it were alone. -/
theorem asAlone_establish {now : ℤ} {content : HttpContent} (hfd : c'.channel.fd = c.channel.fd)
    (hnew : c.toTcpConnection = (Session.new id c.channel.fd now content .new).toTcpConnection)
    (hconnection : c'.toTcpConnection = ((c.session epoller).establish []).toTcpConnection) :
    server.AsAlone id c' [] [] := by
  have hreplays : Replays [] (c.session epoller) (.new id c.channel.fd now content .new) := .of_eq hnew.symm rfl
  have hestablished := hreplays.establish []
  refine ⟨now, content, [], _, rfl, ?_, hestablished.calls, rfl⟩
  rw [hfd, hconnection]
  exact hestablished.connection

/-- What happens to a connection and would happen to it alone keeps it as if it were alone. -/
theorem AsAlone.step (h : server.AsAlone id c log read) (event : ConnectionEvent) (epoller : Epoller) {s' : Session}
    (hfd : c'.channel.fd = c.channel.fd) (hconnection : c'.toTcpConnection = s'.toTcpConnection)
    (hstep : ∀ t, Orderly t → Replays log (c.session epoller) t →
      ∃ t', server.connectionStep t event = some t' ∧ Replays log s' t') :
    server.AsAlone id c' (log ++ s'.calls) (read ++ event.data) := by
  obtain ⟨now, content, events, t, hrun, hsame, hcalls, harrived⟩ := h
  have horderly := run_invariant orderly_step (Or.inl (Session.open_started rfl rfl)) hrun
  obtain ⟨t', hnext, hreplays⟩ := hstep t horderly (.of_eq hsame (by rw [hcalls]; exact (List.append_nil _).symm))
  refine ⟨now, content, events ++ [event], t', ?_, ?_, hreplays.calls, ?_⟩
  · rw [hfd]
    exact run_snoc_eq_some.mpr ⟨t, hrun, hnext⟩
  · rw [hconnection, hreplays.connection]
  · rw [← harrived, arrived, List.map_append, List.flatten_append, ← arrived]
    simp

/-- While a connection is established, the kernel watches it for input when it is alone. -/
theorem watchesInput_of_expects {t : Session} (horderly : Orderly t) (hsame : t.toTcpConnection = c.toTcpConnection)
    (hexpects : Phase.established.Expects c.channel) : watchesInput t = true := by
  have hchannel : t.channel = c.channel := by rw [hsame]
  obtain ⟨hadded, hepollin⟩ := hexpects
  rcases horderly with hopen | hclosed
  · have hinStep := hopen.inStep
    rw [Epoller.InStep, hopen.added] at hinStep
    rw [watchesInput, hinStep.2]
    exact hopen.reading
  · have hdeleted := hclosed.deleted
    rw [hchannel, hadded] at hdeleted
    cases hdeleted

/-- `HandleMessage` with the callback of the HTTP server. -/
theorem asAlone_handleMessage (h : server.AsAlone id c log read) {data : Option Bytes}
    {calls : List WebServer.Util.UserCall}
    (hfd : c'.channel.fd = c.channel.fd) (hexpects : Phase.established.Expects c.channel)
    (hserved : server.Served epoller c (.handleMessage data calls))
    (hconnection : c'.toTcpConnection = ((c.session epoller).handleMessage calls data).toTcpConnection) :
    server.AsAlone id c' (log ++ ((c.session epoller).handleMessage calls data).calls) (read ++ data.getD []) := by
  obtain ⟨inputs, hcall⟩ := hserved
  apply h.step (.readable data inputs) epoller hfd hconnection
  intro t horderly hreplays
  obtain ⟨t', hcall', hreplays'⟩ := replays_handleMessage hreplays hcall
  refine ⟨t', ?_, hreplays'⟩
  rw [connectionStep, if_pos (watchesInput_of_expects horderly hreplays.connection hexpects), hcall']

/-- `HandleWrite`. -/
theorem asAlone_handleWrite (h : server.AsAlone id c log read) {result : SendResult}
    (hfd : c'.channel.fd = c.channel.fd)
    (hconnection : c'.toTcpConnection = ((c.session epoller).handleWrite result).toTcpConnection) :
    server.AsAlone id c' (log ++ ((c.session epoller).handleWrite result).calls) read := by
  have hwritten := h.step (.writable result) epoller hfd hconnection fun t _ hreplays =>
    ⟨t.handleWrite result, rfl, hreplays.handleWrite result⟩
  rw [← List.append_nil read]
  exact hwritten

/-- `Shutdown` by the idle timer. -/
theorem asAlone_shutdown (h : server.AsAlone id c log read) (hfd : c'.channel.fd = c.channel.fd)
    (hconnection : c'.toTcpConnection = (c.session epoller).shutdown.toTcpConnection) :
    server.AsAlone id c' (log ++ (c.session epoller).shutdown.calls) read := by
  have hended := h.step .idleShutdown epoller hfd hconnection fun t _ hreplays =>
    ⟨t.shutdown, rfl, hreplays.shutdown⟩
  rw [← List.append_nil read]
  exact hended

/-- A connection with the same data members is as if it were alone just as well. -/
theorem AsAlone.congr (h : server.AsAlone id c log read) (hsame : c'.toTcpConnection = c.toTcpConnection) :
    server.AsAlone id c' log read := by
  obtain ⟨now, content, events, t, hrun, ht, hcalls, harrived⟩ := h
  refine ⟨now, content, events, t, ?_, ht.trans hsame.symm, hcalls, harrived⟩
  rw [hsame]
  exact hrun

/-- Activities do not change the descriptor. -/
theorem fd_perform (activity : Activity) (s : Session) : (activity.perform s).channel.fd = s.channel.fd := by
  cases activity with
  | establish calls => exact (s.local_establish calls).fd
  | handleMessage data calls => exact (s.local_handleMessage calls data).fd
  | handleWrite result => exact (s.handleWrite_setsOutput result).local.fd
  | shutdown => exact s.shutdown_sameView.local.fd
  | connectionDestructor => exact s.local_connectionDestructor.fd

/-- No step changes the descriptor of a connection. -/
theorem fd_acted {activity : Option Activity} (h : Acted epoller activity c c') : c'.channel.fd = c.channel.fd := by
  rw [h.connection]
  cases activity with
  | none => rfl
  | some performed => exact fd_perform performed (c.session epoller)

/-- `ConnectionDestructor` makes no calls. -/
theorem calls_connectionDestructor (s : Session) : s.connectionDestructor.calls = s.calls := by
  rw [Session.connectionDestructor]
  split
  · rfl
  · rfl

/-- `Shutdown` makes no other calls than those that end the output. -/
theorem endsOutput_shutdown (c : Connection Loop) (epoller : Epoller) :
    ∀ call ∈ (c.session epoller).shutdown.calls, EndsOutput call := by
  have hrequested : ({ c.session epoller with state := .kDisconnecting }.record .shutdown).calls = [.shutdown] :=
    rfl
  rw [Session.shutdown]
  split
  · rw [hrequested, List.forall_mem_singleton]
    exact Or.inl rfl
  · rw [Session.record_calls, hrequested, List.singleton_append, List.forall_mem_cons, List.forall_mem_singleton]
    exact ⟨Or.inl rfl, Or.inr ⟨_, rfl⟩⟩

/-- The idle timer may hold a connection longer than the server does. -/
theorem Outlived.shutdown (h : server.Outlived Loop id log read) (c : Connection Loop) (epoller : Epoller) :
    server.Outlived Loop id (log ++ (c.session epoller).shutdown.calls) read := by
  obtain ⟨d, earlier, later, halone, hclosed, rfl, hends⟩ := h
  refine ⟨d, earlier, later ++ (c.session epoller).shutdown.calls, halone, hclosed, List.append_assoc _ _ _, ?_⟩
  exact List.forall_mem_append.mpr ⟨hends, endsOutput_shutdown c epoller⟩

/-- A connection that is taken off its epoller was closed. -/
theorem AsAlone.closed (h : server.AsAlone id c log read) (hdeleted : c.channel.state = .kDeleted) :
    .close ∈ log := by
  obtain ⟨now, content, events, t, hrun, hsame, hcalls, -⟩ := h
  rcases run_invariant orderly_step (Or.inl (Session.open_started rfl rfl)) hrun with hopen | hclosed
  · have hadded := hopen.added
    rw [hsame, hdeleted] at hadded
    cases hadded
  · exact hcalls ▸ hclosed.closed

/-- A connection that was established is not new any more. -/
theorem rank_of_established [DecidableEq Loop] {phase : Phase} {loop : Loop}
    (hhistory : run (Phase.next id c.loop) .free c.history = some phase)
    (hestablished : .connectionEstablished loop ∈ c.history) : 2 ≤ phase.rank := by
  obtain ⟨u, u', hstep, -, hle⟩ := (Phase.advances_next id c.loop).mem_run hhistory hestablished
  cases WebServer.Util.Phase.passes_of_next hstep with
  | connectionEstablished => exact hle

/-- Between its establishment and its destruction a connection is as if it were alone. -/
theorem follows_iff {phase : Phase} (hphase : 2 ≤ phase.rank ∧ phase.rank ≤ 4) :
    server.Follows id c log read phase ↔ server.AsAlone id c log read := by
  cases phase with
  | established => exact Iff.rfl
  | closing => exact Iff.rfl
  | erased => exact Iff.rfl
  | _ => simp [Phase.rank] at hphase

/-- The idle timer shuts down a connection that was established. -/
theorem follows_shutdown {phase : Phase} (h : server.Follows id c log read phase) (hlow : 2 ≤ phase.rank)
    (hfd : c'.channel.fd = c.channel.fd)
    (hconnection : c'.toTcpConnection = (c.session epoller).shutdown.toTcpConnection) :
    server.Follows id c' (log ++ (c.session epoller).shutdown.calls) read phase := by
  by_cases hhigh : phase.rank ≤ 4
  · rw [follows_iff ⟨hlow, hhigh⟩] at h ⊢
    exact asAlone_shutdown h hfd hconnection
  · cases phase with
    | destructed => exact Outlived.shutdown h c epoller
    | closed => exact Outlived.shutdown h c epoller
    | _ => simp [Phase.rank] at hhigh

/-- A step does to a connection what it would do to it alone. -/
theorem follows_acted [DecidableEq Loop] {phase phase' : Phase} {activity : Option Activity}
    (hacted : Acted epoller activity c c') (hexpects : phase.Expects c.channel)
    (hhistory : run (Phase.next id c.loop) .free c.history = some phase)
    (hhistory' : run (Phase.next id c'.loop) .free c'.history = some phase')
    (hserved : ∀ performed ∈ activity, server.Served epoller c performed) (h : server.Follows id c log read phase) :
    server.Follows id c' (log ++ activity.elim [] fun performed => (performed.perform (c.session epoller)).calls)
      (read ++ activity.elim [] Activity.bytes) phase' := by
  have hfd := fd_acted hacted
  obtain ⟨hloop, hconnection, events, hevents, hrecorded⟩ := hacted
  rw [hloop, hevents] at hhistory'
  obtain ⟨phase₀, hfirst, hnext⟩ := run_append_eq_some.mp hhistory'
  obtain rfl := Option.some.inj (hhistory.symm.trans hfirst)
  cases hrecorded with
  | rest =>
    obtain rfl := Option.some.inj hnext
    rw [Option.elim_none, Option.elim_none, List.append_nil, List.append_nil]
    have hsame : c'.toTcpConnection = c.toTcpConnection := hconnection
    cases phase with
    | free => exact h
    | accepted =>
      obtain ⟨hlog, hread, now, content, hnew⟩ := h
      refine ⟨hlog, hread, now, content, ?_⟩
      rw [hsame]
      exact hnew
    | destructed => exact h
    | closed => exact h
    | _ => exact AsAlone.congr h hsame
  | erase entry =>
    obtain ⟨phase₁, hstep, hend⟩ := run_cons_eq_some.mp hnext
    obtain rfl := Option.some.inj hend
    rw [Option.elim_none, Option.elim_none, List.append_nil, List.append_nil]
    cases WebServer.Util.Phase.passes_of_next hstep with
    | handleCloseInLoop => exact AsAlone.congr h hconnection
  | close entry registered =>
    obtain ⟨phase₁, hstep, hend⟩ := run_cons_eq_some.mp hnext
    obtain rfl := Option.some.inj hend
    rw [Option.elim_none, Option.elim_none, List.append_nil, List.append_nil]
    cases WebServer.Util.Phase.passes_of_next hstep with
    | close => exact h
  | establish calls loop =>
    obtain ⟨phase₁, hstep, hend⟩ := run_cons_eq_some.mp hnext
    obtain rfl := Option.some.inj hend
    obtain rfl : calls = [] := hserved _ rfl
    cases WebServer.Util.Phase.passes_of_next hstep with
    | connectionEstablished =>
      obtain ⟨rfl, rfl, now, content, hnew⟩ := h
      exact asAlone_establish hfd hnew hconnection
  | handleMessage data calls =>
    obtain ⟨phase₁, hstep, hend⟩ := run_cons_eq_some.mp hnext
    obtain rfl := Option.some.inj hend
    have hphase : phase = .established ∧ (2 ≤ phase₁.rank ∧ phase₁.rank ≤ 4) := by
      generalize decide (data = some []) = closes at hstep
      cases WebServer.Util.Phase.passes_of_next hstep with
      | handleMessage => exact ⟨rfl, by decide⟩
      | handleClose => exact ⟨rfl, by decide⟩
    obtain ⟨rfl, hrank⟩ := hphase
    have hread := asAlone_handleMessage h hfd hexpects (hserved _ rfl) hconnection
    rw [follows_iff hrank]
    cases data with
    | none => exact hread
    | some bytes => exact hread
  | handleWrite result =>
    obtain ⟨phase₁, hstep, hend⟩ := run_cons_eq_some.mp hnext
    obtain rfl := Option.some.inj hend
    cases WebServer.Util.Phase.passes_of_next hstep with
    | handleWrite hknown =>
      rw [follows_iff hknown] at h ⊢
      have hbytes : (Activity.handleWrite result).bytes = [] := rfl
      rw [Option.elim_some, Option.elim_some, hbytes, List.append_nil]
      exact asAlone_handleWrite h hfd hconnection
  | shutdown =>
    obtain rfl := Option.some.inj hnext
    obtain ⟨loop, hestablished⟩ := hserved _ rfl
    have hbytes : Activity.shutdown.bytes = [] := rfl
    rw [Option.elim_some, Option.elim_some, hbytes, List.append_nil]
    exact follows_shutdown h (rank_of_established hhistory hestablished) hfd hconnection
  | connectionDestructor loop =>
    obtain ⟨phase₁, hstep, hend⟩ := run_cons_eq_some.mp hnext
    obtain rfl := Option.some.inj hend
    cases WebServer.Util.Phase.passes_of_next hstep with
    | connectionDestructor =>
      have hcalls : (c.session epoller).connectionDestructor.calls = [] := calls_connectionDestructor _
      have hbytes : Activity.connectionDestructor.bytes = [] := rfl
      rw [Option.elim_some, Option.elim_some, hbytes, List.append_nil, Activity.perform, hcalls, List.append_nil]
      exact ⟨c, log, [], h, AsAlone.closed h hexpects.1, (List.append_nil _).symm, List.forall_mem_nil _⟩

section WholeRun

variable [DecidableEq Loop] [Fintype Loop]

omit [Fintype Loop] in
/-- What the connections of a server did and read, in whatever phase they are. -/
structure Mirrored (server : HttpServer) (s : TcpServer Loop) (log : ℕ → List Call) (read : ℕ → Bytes) : Prop where
  absent : ∀ id, s.objects.length ≤ id → log id = [] ∧ read id = []
  follows : ∀ id c phase, s.objects[id]? = some c → run (Phase.next id c.loop) .free c.history = some phase →
    server.Follows id c (log id) (read id) phase

/-- A step extends what the connections did and read. -/
theorem mirrored_step {s s' : TcpServer Loop} {action : ServerAction Loop} {log : ℕ → List Call} {read : ℕ → Bytes}
    (h : server.Mirrored s log read) (hmanaged : ∃ phase, s.Managed phase) (hserves : server.Serves s action)
    (hstep : s.step action = some s') :
    server.Mirrored s' (fun id => log id ++ s.callsMade id action)
      (fun id => read id ++ s.bytesRead id action) := by
  obtain ⟨phase, hmanaged⟩ := hmanaged
  obtain ⟨⟨judged, hobjects⟩, hlength, horigin⟩ := hmanaged.prepared hstep
  have hacted := WebServer.Util.TcpServer.step_activity hstep
  constructor
  · intro id hid
    rw [hacted.length] at hid
    obtain ⟨hlog, hread⟩ := h.absent id (hlength.trans hid)
    have hnone : s.performed id action = none := by
      rw [TcpServer.performed, List.getElem?_eq_none hid]
      rfl
    rw [hlog, hread, TcpServer.callsMade, TcpServer.bytesRead, hnone]
    exact ⟨rfl, rfl⟩
  · intro id c' after hid hafter
    have hlt : id < (s.prepared action).length := by
      rw [← hacted.length]
      exact (List.getElem?_eq_some_iff.mp hid).1
    have hbefore : (s.prepared action)[id]? = some (s.prepared action)[id] := List.getElem?_eq_getElem hlt
    generalize (s.prepared action)[id] = c at hbefore
    obtain ⟨d, hd, hchange⟩ := hacted.acted id c hbefore
    obtain rfl := Option.some.inj (hid.symm.trans hd)
    have hsound := hobjects.sound id c hbefore
    have hfollows : server.Follows id c (log id) (read id) (judged id) := by
      rcases horigin id c hbefore with hold | ⟨hnew, now, content, hconnection, haccepted⟩
      · exact h.follows id c _ hold hsound.history
      · obtain ⟨hlog, hread⟩ := h.absent id hnew.le
        rw [Option.some.inj (hsound.history.symm.trans haccepted)]
        exact ⟨hlog, hread, now, content, hconnection⟩
    have hperformed : s.performed id action = (s.activity id action).map (c, ·) := by
      rw [TcpServer.performed, hbefore]
      rfl
    have hserved : ∀ performed ∈ s.activity id action, server.Served (s.epollers c.loop) c performed := by
      intro performed hmem
      apply hserves id c performed
      rw [hperformed, hmem]
      rfl
    have hnext := follows_acted hchange hsound.expects hsound.history hafter hserved hfollows
    simp only [TcpServer.callsMade, TcpServer.bytesRead, hperformed]
    cases hactivity : s.activity id action with
    | none =>
      rw [hactivity] at hnext
      exact hnext
    | some performed =>
      rw [hactivity] at hnext
      exact hnext

/-- A run of the server collects what each connection did and read. -/
theorem mirrored_run {threadPool : EventLoopThreadPool Loop} {actions : List (ServerAction Loop)}
    {s : TcpServer Loop}
    (hserves : Meets TcpServer.step server.Serves (.new threadPool) actions)
    (hrun : run TcpServer.step (.new threadPool) actions = some s) :
    server.Mirrored s (fun id => trace TcpServer.step (TcpServer.callsMade · id ·) (.new threadPool) actions)
      (fun id => trace TcpServer.step (TcpServer.bytesRead · id ·) (.new threadPool) actions) := by
  induction actions using List.reverseRecOn generalizing s with
  | nil =>
    obtain rfl := Option.some.inj hrun
    exact ⟨fun _ _ => ⟨rfl, rfl⟩, fun id c phase hid => by cases hid⟩
  | append_singleton actions action ih =>
    obtain ⟨m, hm, hstep⟩ := run_snoc_eq_some.mp hrun
    obtain ⟨hserves, hlast⟩ := meets_append.mp hserves
    have hmanaged := run_invariant WebServer.Util.TcpServer.managed_step
      ⟨_, WebServer.Util.TcpServer.managed_new threadPool⟩ hm
    have hmirrored := mirrored_step (ih hserves hm) hmanaged (hlast m hm).head hstep
    simpa only [trace_append hm, trace_cons hstep, trace_nil, List.append_nil] using hmirrored

omit [Fintype Loop] in
/-- The activity and the connection on which it is performed. -/
theorem performed_eq_some {s : TcpServer Loop} {action : ServerAction Loop} {activity : Activity}
    (h : s.performed id action = some (c, activity)) :
    (s.prepared action)[id]? = some c ∧ s.activity id action = some activity := by
  obtain ⟨d, hid, hmap⟩ := Option.bind_eq_some_iff.mp h
  obtain ⟨same, hactivity, hpair⟩ := Option.map_eq_some_iff.mp hmap
  obtain ⟨rfl, rfl⟩ := Prod.mk.inj hpair
  exact ⟨hid, hactivity⟩

/-- No callback makes calls, and no bytes are read. -/
def answersNothing : ServerAction Loop → Bool
  | .newConn _ _ _ calls => calls.isEmpty
  | .handleMessage _ data calls => calls.isEmpty ∧ (data.getD []).isEmpty
  | .runNext _ calls => calls.isEmpty
  | .idleShutdown _ _ => false
  | _ => true

omit [Fintype Loop] in
/-- What answers nothing is done by every HTTP server. -/
theorem serves_of_answersNothing (server : HttpServer) (s : TcpServer Loop) {action : ServerAction Loop}
    (h : answersNothing action = true) : server.Serves s action := by
  intro id c activity hperformed
  obtain ⟨-, hactivity⟩ := performed_eq_some hperformed
  cases action with
  | newConn fd now content calls =>
    obtain rfl := List.isEmpty_iff.mp h
    obtain ⟨-, hestablish⟩ := Option.ite_none_right_eq_some.mp hactivity
    obtain rfl := Option.some.inj hestablish
    rfl
  | handleMessage loop data calls =>
    obtain ⟨hcalls, hdata⟩ := of_decide_eq_true h
    obtain rfl := List.isEmpty_iff.mp hcalls
    obtain ⟨-, hread⟩ := Option.ite_none_right_eq_some.mp hactivity
    obtain rfl := Option.some.inj hread
    cases data with
    | none => exact ⟨acceptingInputs, rfl⟩
    | some bytes =>
      obtain rfl := List.isEmpty_iff.mp hdata
      exact ⟨acceptingInputs, rfl⟩
  | handleWrite loop result =>
    obtain ⟨-, hwrite⟩ := Option.ite_none_right_eq_some.mp hactivity
    obtain rfl := Option.some.inj hwrite
    trivial
  | runNext loop calls =>
    obtain rfl := List.isEmpty_iff.mp h
    rw [TcpServer.activity] at hactivity
    split at hactivity
    · obtain rfl := Option.some.inj hactivity
      rfl
    · obtain ⟨-, hdestruct⟩ := Option.ite_none_right_eq_some.mp hactivity
      obtain rfl := Option.some.inj hdestruct
      trivial
  | idleShutdown loop other => cases h
  | _ => cases hactivity

/-- What was handed to `Send` stays below `2^31` bytes, together with the initial size of the output buffer. -/
def MessagesFit (calls : List Call) : Prop :=
  initialSize + (calls.filterMap Call.message).flatten.length < 2147483648

instance (calls : List Call) : Decidable (MessagesFit calls) := inferInstanceAs (Decidable (_ < _))

/-- What a connection did and read is what it does alone: nothing is handed to `Send` behind `Shutdown`, and nothing
is sent behind a `::shutdown`. If the messages fit, `::shutdown` finds the output buffer empty before the close, and
the messages are the texts of the replies to the bytes that were read. -/
structure Conversed (server : HttpServer) (id : ℕ) (calls : List Call) (read : Bytes) : Prop where
  ordered : calls.Pairwise Call.MayFollow
  drained : MessagesFit calls → ∀ buffered, .kernelShutdown buffered ∈ beforeClose calls → buffered = []
  replied : MessagesFit calls → ∃ fd now content events, (run server.connectionStep
    (.started id fd now content .new) events).isSome ∧
    arrived events = read ∧
    calls.filterMap Call.message = (server.exchanges (.started id fd now content .new) events).map (·.reply.text)

omit [DecidableEq Loop] [Fintype Loop] in
/-- A connection that is as if it were alone. -/
theorem AsAlone.conversed (h : server.AsAlone id c log read) : server.Conversed id log read := by
  obtain ⟨now, content, events, t, hrun, -, rfl, harrived⟩ := h
  obtain ⟨hordered, hdrained⟩ := graceful_run rfl rfl hrun
  have hran : (run server.connectionStep (.started id c.channel.fd now content .new) events).isSome := by
    rw [hrun]
    rfl
  refine ⟨hordered, fun hfits => ?_, fun _ => ⟨c.channel.fd, now, content, events, hran, harrived,
    messages_run hrun⟩⟩
  exact (hdrained (outputFits_of_messages (roomy_started ..) hrun hfits)).2

/-- What ends the output may follow everything. -/
theorem EndsOutput.mayFollow {earlier call : Call} (h : EndsOutput call) : earlier.MayFollow call := by
  rcases h with rfl | ⟨buffered, rfl⟩
  · cases earlier <;> trivial
  · cases earlier <;> trivial

/-- What ends the output hands nothing to `Send`. -/
theorem EndsOutput.message {call : Call} (h : EndsOutput call) : call.message = none := by
  rcases h with rfl | ⟨buffered, rfl⟩
  · rfl
  · rfl

omit [DecidableEq Loop] [Fintype Loop] in
/-- A connection that was as if it were alone until it was destructed. -/
theorem Outlived.conversed (h : server.Outlived Loop id log read) : server.Conversed id log read := by
  obtain ⟨d, earlier, later, halone, hclosed, rfl, hends⟩ := h
  obtain ⟨hordered, hdrained, hreplied⟩ := halone.conversed
  have hlater : later.filterMap Call.message = [] := List.filterMap_eq_nil_iff.mpr fun call hmem =>
    (hends call hmem).message
  have hmessages : (earlier ++ later).filterMap Call.message = earlier.filterMap Call.message := by
    rw [List.filterMap_append, hlater, List.append_nil]
  have hfit : MessagesFit (earlier ++ later) = MessagesFit earlier := by rw [MessagesFit, MessagesFit, hmessages]
  rw [← hfit] at hdrained hreplied
  refine ⟨?_, ?_, fun hfits => ?_⟩
  · refine List.pairwise_append.mpr ⟨hordered, ?_, fun _ _ call hmem => (hends call hmem).mayFollow⟩
    exact List.pairwise_of_forall_mem_list fun _ _ call hmem => (hends call hmem).mayFollow
  · rw [beforeClose_append hclosed]
    exact hdrained
  · rw [hmessages]
    exact hreplied hfits

/-- In every run of the whole server with the callbacks of the HTTP server, with any number of loops and in any
order of their steps, a connection that was established and is not destructed is in a state which
it reaches when it is alone with some events that bring the bytes read on it, and has made the same calls. The
idle check's `Shutdown` is one step, in whatever thread it runs. -/
theorem alone_run {threadPool : EventLoopThreadPool Loop} {actions : List (ServerAction Loop)} {s : TcpServer Loop}
    (hserves : Meets TcpServer.step server.Serves (.new threadPool) actions)
    (hrun : run TcpServer.step (.new threadPool) actions = some s) {id : ℕ} {c : Connection Loop} {loop : Loop}
    (hid : s.objects[id]? = some c) (hestablished : .connectionEstablished loop ∈ c.history)
    (hpresent : ∀ loop, .connectionDestructor loop ∉ c.history) :
    ∃ now content events t, run server.connectionStep (.started id c.channel.fd now content .new) events = some t ∧
      t.toTcpConnection = c.toTcpConnection ∧
      t.calls = trace TcpServer.step (TcpServer.callsMade · id ·) (.new threadPool) actions ∧
      arrived events = trace TcpServer.step (TcpServer.bytesRead · id ·) (.new threadPool) actions := by
  obtain ⟨phase, hmanaged⟩ :=
    run_invariant WebServer.Util.TcpServer.managed_step ⟨_, WebServer.Util.TcpServer.managed_new threadPool⟩ hrun
  have hhistory := (hmanaged.objects.sound id c hid).history
  have hlow := rank_of_established hhistory hestablished
  have hhigh : (phase id).rank ≤ 4 := by
    by_contra hlarge
    exact hpresent c.loop (Phase.entering_mem .destructed hhistory rfl (Nat.not_le.mp hlarge))
  exact (follows_iff ⟨hlow, hhigh⟩).mp ((mirrored_run hserves hrun).follows id c _ hid hhistory)

/-- A worker's connection on descriptor 7 is established, and the kernel reports input for it. -/
def openingActions : List (ServerAction Bool) :=
  [.poll false [.acceptor], .newConn 7 0 (.new .kGet .kUnknown) [], .internal true (.write false),
    .poll true [.wakeup], .internal true .handleRead, .internal true .beginFunctors, .internal true .swap,
    .runNext true [], .internal true .functorDone, .internal true .endFunctors, .poll true [.ready 7 ⟨true, false⟩]]

/-- A connection that is new keeps the start of a line. -/
theorem handleMessage_unterminated {s : Session} {inputs : CallbackInputs} {first : UInt8} {rest : Bytes}
    (hactive : s.isShutdown = false) (hcontent : s.content.parseState = .kParseRequestLine)
    (hpiece : (s.inputBuffer.readFd (first :: rest)).findCRLF = none) :
    (defaultServer false).handleMessage inputs s (some (first :: rest)) =
      some (s.handleMessage [] (some (first :: rest))) := by
  have hparse : s.content.parseContent (s.inputBuffer.readFd (first :: rest)) =
      some (.returned true s.content (s.inputBuffer.readFd (first :: rest))) := by
    rw [HttpContent.parseContent, HttpContent.parseLoop, HttpContent.parseIteration]
    simp only [hcontent, hpiece]
  have hinactive : ¬ ({ s with inputBuffer := s.inputBuffer.readFd (first :: rest) } : Session).isShutdown =
    true := by
    change ¬ s.isShutdown = true
    rw [hactive]
    exact Bool.false_ne_true
  have hincomplete : s.content.getCompleteRequest = false := by
    simp [HttpContent.getCompleteRequest, hcontent]
  rw [handleMessage, messageCallback, parseInput]
  simp only [defaultServer, Bool.false_eq_true, if_false]
  rw [if_neg hinactive, hparse]
  exact congrArg some (answerComplete_of_incomplete hincomplete)

/-- Then the message callback is running for the new connection. -/
theorem openingActions_ready : ∃ s s' c c', run TcpServer.step (.new ⟨false, [true], 0⟩) openingActions = some s ∧
    (s.loops true).position.callback = some (.handleMessage 0) ∧ s.objects[0]? = some c ∧ c.state = .kConnected ∧
    c.content = .new .kGet .kUnknown ∧ c.inputBuffer = .new ∧ c.timestamp = 0 ∧
    TcpServer.step s (.handleMessage true (some (ascii "GET")) []) = some s' ∧ s'.objects[0]? = some c' ∧
    c'.history = [.handleNewConn none, .connectionEstablished true, .handleMessage false] ∧
    trace TcpServer.step (TcpServer.bytesRead · 0 ·) (.new ⟨false, [true], 0⟩)
      (openingActions ++ [.handleMessage true (some (ascii "GET")) []]) = ascii "GET" :=
  ⟨_, _, _, _, rfl, rfl, rfl, rfl, rfl, rfl, rfl, rfl, rfl, rfl, rfl⟩

/-- What a worker's connection reads first is the start of a head. -/
theorem serves_partialHead : Meets TcpServer.step (defaultServer false).Serves (.new ⟨false, [true], 0⟩)
    (openingActions ++ [.handleMessage true (some (ascii "GET")) []]) := by
  obtain ⟨s, -, c, -, hopening, hcallback, hid, hstate, hcontent, hbuffer, -⟩ := openingActions_ready
  have hquiet : ∀ action ∈ openingActions, answersNothing action = true := by decide
  have hpiece : (c.inputBuffer.readFd (ascii "GET")).findCRLF = none := by
    rw [hbuffer]
    decide +kernel
  refine meets_append.mpr ⟨?_, fun m hm => ⟨?_, fun _ _ => trivial⟩⟩
  · exact meets_of_forall_mem (fun action hmem s => serves_of_answersNothing _ s (hquiet action hmem)) _
  · obtain rfl := Option.some.inj (hopening.symm.trans hm)
    intro id d activity hperformed
    obtain ⟨hfound, hactivity⟩ := performed_eq_some hperformed
    obtain ⟨hat, hread⟩ := Option.ite_none_right_eq_some.mp hactivity
    obtain rfl := Option.some.inj hread
    rw [hcallback] at hat
    obtain rfl := WebServer.Util.Callback.handleMessage.inj (Option.some.inj hat)
    obtain rfl := Option.some.inj (hid.symm.trans hfound)
    refine ⟨acceptingInputs, handleMessage_unterminated ?_ ?_ hpiece⟩
    · change decide (c.state = .kDisconnecting) = false
      rw [hstate]
      rfl
    · change c.content.parseState = .kParseRequestLine
      rw [hcontent]
      rfl

/-- A worker's connection that reads the start of a head is as if it had read it alone. -/
theorem alone_run_partialHead : ∃ s c, run TcpServer.step (.new ⟨false, [true], 0⟩)
    (openingActions ++ [.handleMessage true (some (ascii "GET")) []]) = some s ∧ s.objects[0]? = some c ∧
    ∃ now content events t,
      run (defaultServer false).connectionStep (.started 0 c.channel.fd now content .new) events = some t ∧
        t.toTcpConnection = c.toTcpConnection ∧ arrived events = ascii "GET" := by
  obtain ⟨s, s', -, c', hopening, -, -, -, -, -, -, hstep, hid, hhistory, hread⟩ := openingActions_ready
  have hrun : run TcpServer.step (.new ⟨false, [true], 0⟩)
      (openingActions ++ [.handleMessage true (some (ascii "GET")) []]) = some s' :=
    run_snoc_eq_some.mpr ⟨s, hopening, hstep⟩
  have hestablished : .connectionEstablished true ∈ c'.history := by
    rw [hhistory]
    decide
  have hpresent : ∀ loop, .connectionDestructor loop ∉ c'.history := by
    rw [hhistory]
    decide
  obtain ⟨now, content, events, t, halone, hsame, -, harrived⟩ :=
    alone_run serves_partialHead hrun hid hestablished hpresent
  exact ⟨s', c', hrun, hid, now, content, events, t, halone, hsame, harrived.trans hread⟩

/-- In every run of the whole server with the callbacks of the HTTP server, each connection that was established
replied to its own bytes, and never sends behind its `::shutdown`, also when the idle timer holds it
longer than the server does. The idle check's `Shutdown` is one step, in whatever thread it runs. -/
theorem conversed_run {threadPool : EventLoopThreadPool Loop} {actions : List (ServerAction Loop)}
    {s : TcpServer Loop}
    (hserves : Meets TcpServer.step server.Serves (.new threadPool) actions)
    (hrun : run TcpServer.step (.new threadPool) actions = some s) {id : ℕ} {c : Connection Loop} {loop : Loop}
    (hid : s.objects[id]? = some c) (hestablished : .connectionEstablished loop ∈ c.history) :
    server.Conversed id (trace TcpServer.step (TcpServer.callsMade · id ·) (.new threadPool) actions)
      (trace TcpServer.step (TcpServer.bytesRead · id ·) (.new threadPool) actions) := by
  obtain ⟨phase, hmanaged⟩ :=
    run_invariant WebServer.Util.TcpServer.managed_step ⟨_, WebServer.Util.TcpServer.managed_new threadPool⟩ hrun
  have hhistory := (hmanaged.objects.sound id c hid).history
  have hlow := rank_of_established hhistory hestablished
  have hfollows := (mirrored_run hserves hrun).follows id c _ hid hhistory
  by_cases hhigh : (phase id).rank ≤ 4
  · exact ((follows_iff ⟨hlow, hhigh⟩).mp hfollows).conversed
  · cases hphase : phase id with
    | destructed => exact Outlived.conversed (hphase ▸ hfollows)
    | closed => exact Outlived.conversed (hphase ▸ hfollows)
    | _ => simp [hphase, Phase.rank] at hhigh

/-- The content and the buffer which the parser returns. -/
def leftBehind : Option (ParseOutcome Buffer) → HttpContent × Buffer
  | some (.returned _ content inputBuffer) => (content, inputBuffer)
  | _ => (.new .kGet .kUnknown, .new)

/-- The parser rejects what it reads. -/
def isRejected : Option (ParseOutcome Buffer) → Bool
  | some (.returned parseok _ _) => !parseok
  | _ => false

/-- What is rejected leaves a content and a buffer behind. -/
theorem eq_of_isRejected {outcome : Option (ParseOutcome Buffer)} (h : isRejected outcome = true) :
    outcome = some (.returned false (leftBehind outcome).1 (leftBehind outcome).2) := by
  cases outcome with
  | none => cases h
  | some outcome =>
    cases outcome with
    | threw => cases h
    | returned parseok content inputBuffer =>
      cases parseok with
      | true => cases h
      | false => rfl

/-- What the parser returns for a line with nothing but a method. -/
def rejectedHead : HttpContent × Buffer :=
  leftBehind ((HttpContent.new .kGet .kUnknown).parseContent (Buffer.new.readFd (ascii "GET\r\n")))

/-- The worker's connection rejects a head, and the peer closes it. -/
def rejectingActions : List (ServerAction Bool) :=
  [.internal true .beginFunctors, .internal true .swap, .internal true .endFunctors,
    .poll true [.ready 7 ⟨true, false⟩], .handleMessage true (some []) [],
    .internal false .beginFunctors, .internal false .swap, .runNext false [], .internal true (.write false),
    .internal false .functorDone, .internal false .endFunctors,
    .internal true .beginFunctors, .internal true .swap, .runNext true [], .internal true .functorDone,
    .internal true .endFunctors, .destroy 0]

/-- The calls of the message callback for the rejected head. -/
def rejectingCalls : List WebServer.Util.UserCall :=
  [.change 0 rejectedHead.2 rejectedHead.1, .send badRequest (.accepted 100), .shutdown]

/-- The head is rejected. -/
theorem parseContent_rejectedHead : (HttpContent.new .kGet .kUnknown).parseContent
    (Buffer.new.readFd (ascii "GET\r\n")) =
    some (.returned false rejectedHead.1 rejectedHead.2) := eq_of_isRejected (by decide +kernel)

/-- A head that is rejected is answered with 400. -/
theorem handleMessage_rejected {s : Session} {inputs : CallbackInputs} {first : UInt8} {rest : Bytes}
    {content : HttpContent}
    {inputBuffer : Buffer} (hactive : s.isShutdown = false) (htimestamp : s.timestamp = 0)
    (hparse : s.content.parseContent (s.inputBuffer.readFd (first :: rest)) =
      some (.returned false content inputBuffer)) :
    (defaultServer false).handleMessage inputs s (some (first :: rest)) = some
      (s.handleMessage [.change 0 inputBuffer content, .send badRequest inputs.badRequestSend, .shutdown]
        (some (first :: rest))) := by
  have hinactive : ¬ ({ s with inputBuffer := s.inputBuffer.readFd (first :: rest) } : Session).isShutdown =
    true := by
    change ¬ s.isShutdown = true
    rw [hactive]
    exact Bool.false_ne_true
  rw [handleMessage, messageCallback, parseInput]
  simp only [defaultServer, Bool.false_eq_true, if_false]
  rw [if_neg hinactive, hparse, ← htimestamp]
  exact congrArg some (answer_rejected (HttpContent.parseContent_rejected hparse))

/-- What a worker's connection does with the head which it rejects is what the HTTP server does. -/
theorem serves_rejectedHead : Meets TcpServer.step (defaultServer false).Serves (.new ⟨false, [true], 0⟩)
    (openingActions ++ .handleMessage true (some (ascii "GET\r\n")) rejectingCalls :: rejectingActions) := by
  obtain ⟨s, -, c, -, hopening, hcallback, hid, hstate, hcontent, hbuffer, htimestamp, -⟩ := openingActions_ready
  have hopens : ∀ action ∈ openingActions, answersNothing action = true := by decide
  have hcloses : ∀ action ∈ rejectingActions, answersNothing action = true := by decide
  refine meets_append.mpr ⟨meets_of_forall_mem (fun action hmem s =>
    serves_of_answersNothing _ s (hopens action hmem)) _,
    fun m hm => ⟨?_, fun m' _ => meets_of_forall_mem
      (fun action hmem s => serves_of_answersNothing _ s (hcloses action hmem)) _⟩⟩
  obtain rfl := Option.some.inj (hopening.symm.trans hm)
  intro id d activity hperformed
  obtain ⟨hfound, hactivity⟩ := performed_eq_some hperformed
  obtain ⟨hat, hread⟩ := Option.ite_none_right_eq_some.mp hactivity
  obtain rfl := Option.some.inj hread
  rw [hcallback] at hat
  obtain rfl := WebServer.Util.Callback.handleMessage.inj (Option.some.inj hat)
  obtain rfl := Option.some.inj (hid.symm.trans hfound)
  refine ⟨⟨0, .accepted 100, .accepted 100, 0, .kGet, .kUnknown⟩, handleMessage_rejected ?_ htimestamp ?_⟩
  · change decide (c.state = .kDisconnecting) = false
    rw [hstate]
    rfl
  · change c.content.parseContent (c.inputBuffer.readFd (ascii "GET\r\n")) = _
    rw [hcontent, hbuffer]
    exact parseContent_rejectedHead

/-- A connection of a worker that rejected a head, was closed and destructed is one of a conversation. -/
theorem conversed_run_rejected : ∃ s c, run TcpServer.step (.new ⟨false, [true], 0⟩)
      (openingActions ++ .handleMessage true (some (ascii "GET\r\n")) rejectingCalls :: rejectingActions) = some s ∧
    s.objects[0]? = some c ∧ c.alive = false ∧
    (defaultServer false).Conversed 0
      [.send badRequest, .kernelSend badRequest, .shutdown, .kernelShutdown [], .close] (ascii "GET\r\n") ∧
    MessagesFit [.send badRequest, .kernelSend badRequest, .shutdown, .kernelShutdown [], .close] := by
  have hends : (run TcpServer.step (.new ⟨false, [true], 0⟩)
      (openingActions ++ .handleMessage true (some (ascii "GET\r\n")) rejectingCalls :: rejectingActions)).any
        (fun s =>
        s.objects[0]?.any fun c => !c.alive && decide (.connectionEstablished true ∈ c.history)) = true := by
    decide +kernel
  have hcalls : trace TcpServer.step (TcpServer.callsMade · 0 ·) (.new ⟨false, [true], 0⟩)
      (openingActions ++ .handleMessage true (some (ascii "GET\r\n")) rejectingCalls :: rejectingActions) =
        [.send badRequest, .kernelSend badRequest, .shutdown, .kernelShutdown [], .close] := by decide +kernel
  have hread : trace TcpServer.step (TcpServer.bytesRead · 0 ·) (.new ⟨false, [true], 0⟩)
      (openingActions ++ .handleMessage true (some (ascii "GET\r\n")) rejectingCalls :: rejectingActions) =
        ascii "GET\r\n" := by decide +kernel
  obtain ⟨s, hrun, hs⟩ := Option.any_eq_true _ _ |>.mp hends
  obtain ⟨c, hid, hc⟩ := Option.any_eq_true _ _ |>.mp hs
  rw [Bool.and_eq_true, Bool.not_eq_true', decide_eq_true_eq] at hc
  have hconversed := conversed_run serves_rejectedHead hrun hid hc.2
  rw [hcalls, hread] at hconversed
  exact ⟨s, c, hrun, hid, hc.1, hconversed, by decide +kernel⟩

end WholeRun

end WebServer.Http.HttpServer
