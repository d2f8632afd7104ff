import WebServer.Util.ConnectionLifecycle

/-!
# What the server does to each connection

A step of the server performs at most one activity on a connection: one of its functions, in the
thread of one loop. `activity` reads it off the step, and `step_activity` says that a step changes
a connection by its activity and in no other way, whatever it does to the others. The calls which a
connection makes in a run, and the bytes that are read on it, are collected from these activities.
-/

namespace WebServer.Util

open WebServer.Foundation
open WebServer.Http (HttpContent)

/-- The functions of a connection which the server calls. -/
inductive Activity where
  | establish (calls : List UserCall)
  | handleMessage (data : Option Bytes) (calls : List UserCall)
  | handleWrite (result : SendResult)
  | shutdown
  | connectionDestructor

/-- Call the function. -/
def Activity.perform : Activity → Session → Session
  | establish calls, s => s.establish calls
  | handleMessage data calls, s => s.handleMessage calls data
  | handleWrite result, s => s.handleWrite result
  | shutdown, s => s.shutdown
  | connectionDestructor, s => s.connectionDestructor

/-- The bytes that are read. -/
def Activity.bytes : Activity → Bytes
  | handleMessage (some data) _ => data
  | _ => []

/-- The events which an activity adds to the history of the connection, and those of a step without
an activity. -/
inductive Recorded {Loop : Type} : Option Activity → List (LifecycleEvent Loop) → Prop where
  | rest : Recorded none []
  | erase (entry : Option ℕ) : Recorded none [.handleCloseInLoop entry]
  | close (entry registered : Option ℕ) : Recorded none [.close entry registered]
  | establish (calls : List UserCall) (loop : Loop) : Recorded (some (.establish calls))
    [.connectionEstablished loop]
  | handleMessage (data : Option Bytes) (calls : List UserCall) :
      Recorded (some (.handleMessage data calls)) [.handleMessage (data = some [])]
  | handleWrite (result : SendResult) : Recorded (some (.handleWrite result)) [.handleWrite]
  | shutdown : Recorded (some .shutdown) []
  | connectionDestructor (loop : Loop) : Recorded (some .connectionDestructor) [.connectionDestructor loop]

/-- A connection is changed by an activity, and by nothing else. -/
structure Acted {Loop : Type} (epoller : Epoller) (activity : Option Activity) (c c' : Connection Loop) : Prop where
  loop : c'.loop = c.loop
  connection : c'.toTcpConnection =
    activity.elim c.toTcpConnection fun activity => (activity.perform (c.session epoller)).toTcpConnection
  history : ∃ events, c'.history = c.history ++ events ∧ Recorded activity events

/-- Nothing happens to a connection. -/
theorem Acted.rest {Loop : Type} (epoller : Epoller) (c : Connection Loop) : Acted epoller none c c :=
  ⟨rfl, rfl, [], (List.append_nil _).symm, .rest⟩

namespace TcpServer

variable {Loop : Type} [DecidableEq Loop]

/-- The connections when the activity of a step begins: an accepted one is constructed by then. -/
def prepared (s : TcpServer Loop) : ServerAction Loop → List (Connection Loop)
  | .newConn fd now content _ => (s.addConnection fd now content).objects
  | _ => s.objects

/-- The activity of a step on a connection. -/
def activity (s : TcpServer Loop) (id : ℕ) : ServerAction Loop → Option Activity
  | .newConn _ _ _ calls =>
    if id = s.objects.length ∧ s.threadPool.nextLoop = s.baseLoop then some (.establish calls) else none
  | .handleMessage loop data calls =>
    if (s.loops loop).position.callback = some (.handleMessage id) then some (.handleMessage data calls) else none
  | .handleWrite loop result =>
    if (s.loops loop).position.callback = some (.handleWrite id) then some (.handleWrite result) else none
  | .runNext loop calls =>
    if (s.loops loop).position.nextFunc = some (.connectionEstablished id) then some (.establish calls)
    else if (s.loops loop).position.nextFunc = some (.connectionDestructor id) then some .connectionDestructor
    else none
  | .idleShutdown _ other => if other = id then some .shutdown else none
  | _ => none

/-- The activity of a step on a connection, and the connection on which it is performed. -/
def performed (s : TcpServer Loop) (id : ℕ) (action : ServerAction Loop) : Option (Connection Loop × Activity) :=
  (s.prepared action)[id]?.bind fun c => (s.activity id action).map (c, ·)

/-- The calls which a connection makes in a step. -/
def callsMade (s : TcpServer Loop) (id : ℕ) (action : ServerAction Loop) : List Call :=
  match s.performed id action with
  | some (c, activity) => (activity.perform (c.session (s.epollers c.loop))).calls
  | none => []

/-- The bytes that are read on a connection in a step. -/
def bytesRead (s : TcpServer Loop) (id : ℕ) (action : ServerAction Loop) : Bytes :=
  match s.performed id action with
  | some (_, activity) => activity.bytes
  | none => []

/-- Every connection is changed by its activity, and none is lost. -/
structure ActedAll (epollers : Loop → Epoller) (activity : ℕ → Option Activity)
    (objects objects' : List (Connection Loop)) :
    Prop where
  length : objects'.length = objects.length
  acted : ∀ id c, objects[id]? = some c →
    ∃ c', objects'[id]? = some c' ∧ Acted (epollers c.loop) (activity id) c c'

variable {s s' t : TcpServer Loop} {loop thread : Loop} {id : ℕ}

omit [DecidableEq Loop] in
/-- Nothing happens to any connection. -/
theorem ActedAll.rest (epollers : Loop → Epoller) (objects : List (Connection Loop)) :
    ActedAll epollers (fun _ => none) objects objects :=
  ⟨rfl, fun _ c hid => ⟨c, hid, .rest _ c⟩⟩

omit [DecidableEq Loop] in
/-- Something happens to one connection. -/
theorem ActedAll.set {epollers : Loop → Epoller} {objects : List (Connection Loop)} {activity : ℕ → Option Activity}
    {c c' : Connection Loop} (hid : objects[id]? = some c) (hacted : Acted (epollers c.loop) (activity id) c c')
    (hothers : ∀ other, other ≠ id → activity other = none) :
      ActedAll epollers activity objects (objects.set id c') where
  length := List.length_set
  acted other d hother := by
    by_cases heq : other = id
    · subst heq
      obtain rfl := Option.some.inj (hid.symm.trans hother)
      exact ⟨c', List.getElem?_set_self (List.getElem?_eq_some_iff.mp hid).1, hacted⟩
    · rw [hothers other heq]
      exact ⟨d, (List.getElem?_set_ne (Ne.symm heq)).trans hother, .rest _ d⟩

/-- A step of a loop does nothing to the connections. -/
theorem objects_loopStep {action : LoopAction BaseFunc Callback Loop} (h : s.loopStep loop action = some s') :
    s'.objects = s.objects := by
  obtain ⟨next, -, rfl⟩ := loopStep_eq_some h
  rfl

/-- A step of a loop does nothing to the epollers. -/
theorem epollers_loopStep {action : LoopAction BaseFunc Callback Loop} (h : s.loopStep loop action = some s') :
    s'.epollers = s.epollers := by
  obtain ⟨next, -, rfl⟩ := loopStep_eq_some h
  rfl

/-- A function of one connection is called. -/
theorem actedAll_call {events : List (LifecycleEvent Loop)} {activity : ℕ → Option Activity} (performed : Activity)
    (hactivity : activity id = some performed) (hothers : ∀ other, other ≠ id → activity other = none)
    (hrecorded : Recorded (some performed) events) (h : s.call id events performed.perform = some s') :
    ActedAll s.epollers activity s.objects s'.objects := by
  obtain ⟨c, hid, rfl⟩ := Option.map_eq_some_iff.mp h
  refine ActedAll.set hid ⟨rfl, ?_, events, rfl, hactivity ▸ hrecorded⟩ hothers
  rw [hactivity]
  rfl

/-- `HandleNewConn` constructs a connection, and establishes it if it is for the base loop. -/
theorem actedAll_newConn {fd : ℕ} {now : ℤ} {content : HttpContent} {calls : List UserCall}
    (h : s.handleNewConn fd now content calls = some t) :
    ActedAll s.epollers (s.activity · (.newConn fd now content calls))
      (s.prepared (.newConn fd now content calls)) t.objects := by
  have hbase : (s.addConnection fd now content).baseLoop = s.baseLoop := by
    change s.threadPool.advance.baseLoop = s.threadPool.baseLoop
    rw [EventLoopThreadPool.advance]
    split
    · rfl
    · rfl
  rw [handleNewConn, runConnectionEstablished, hbase] at h
  split at h
  · next hloop =>
    have hactivity : s.activity s.objects.length (.newConn fd now content calls) = some (.establish calls) :=
      if_pos ⟨rfl, hloop⟩
    exact actedAll_call (s := s.addConnection fd now content) (.establish calls) hactivity
      (fun other hne => if_neg fun hboth => hne hboth.1) (.establish calls s.baseLoop) (hbase ▸ h)
  · next hloop =>
    have hactivity : (s.activity · (.newConn fd now content calls)) = fun _ => none :=
      funext fun other => if_neg fun hboth => hloop hboth.2
    rw [hactivity, objects_loopStep h]
    exact .rest _ _

/-- `HandleMessage` with the close callback. -/
theorem actedAll_handleMessage {data : Option Bytes} {calls : List UserCall}
    (hcallback : (s.loops loop).position.callback = some (.handleMessage id))
    (h : s.handleMessage loop id data calls = some t) :
    ActedAll s.epollers (s.activity · (.handleMessage loop data calls)) s.objects t.objects := by
  obtain ⟨u, hcall, hclose⟩ := Option.bind_eq_some_iff.mp h
  have hacted : ActedAll s.epollers (s.activity · (.handleMessage loop data calls)) s.objects u.objects :=
    actedAll_call (.handleMessage data calls) (if_pos hcallback)
      (fun other hne => if_neg fun heq => hne (by rw [hcallback] at heq; simpa using heq.symm))
      (.handleMessage data calls) hcall
  split at hclose
  · rw [objects_loopStep hclose]
    exact hacted
  · exact Option.some.inj hclose ▸ hacted

/-- A function that was queued. -/
theorem actedAll_runNext {func : BaseFunc} {calls : List UserCall}
    (hnext : (s.loops loop).position.nextFunc = some func)
    (hstart : s.loopStep loop .runNext = some t) (h : t.runFunc loop calls func = some s') :
    ActedAll s.epollers (s.activity · (.runNext loop calls)) s.objects s'.objects := by
  rw [← objects_loopStep hstart, ← epollers_loopStep hstart]
  cases func with
  | connectionEstablished id =>
    exact actedAll_call (.establish calls) (if_pos hnext)
      (fun other hne => by simp [activity, hnext, Ne.symm hne]) (.establish calls loop) h
  | connectionDestructor id =>
    exact actedAll_call .connectionDestructor (by simp [activity, hnext])
      (fun other hne => by simp [activity, hnext, Ne.symm hne]) (.connectionDestructor loop) h
  | handleCloseInLoop id =>
    obtain ⟨c, hid, hqueue⟩ := Option.bind_eq_some_iff.mp h
    have hnone (other : ℕ) : s.activity other (.runNext loop calls) = none := by simp [activity, hnext]
    rw [objects_loopStep hqueue]
    exact ActedAll.set hid ⟨rfl, by rw [hnone]; rfl, _, rfl, hnone id ▸ .erase _⟩ fun other _ => hnone other
  | addTimerInLoop =>
    obtain rfl := Option.some.inj h
    have hactivity : (s.activity · (.runNext loop calls)) = fun _ => none :=
      funext fun other => by simp [activity, hnext]
    rw [hactivity]
    exact .rest _ _

/-- A step changes every connection by its activity and in no other way. -/
theorem step_activity [Fintype Loop] {action : ServerAction Loop} (hstep : s.step action = some s') :
    ActedAll s.epollers (s.activity · action) (s.prepared action) s'.objects := by
  cases stepped_of_step hstep with
  | internal hfree hstep =>
    rw [objects_loopStep hstep]
    exact .rest _ _
  | poll hpossible hstep =>
    rw [objects_loopStep hstep]
    exact .rest _ _
  | callbackDone hcallback hstep =>
    rw [objects_loopStep hstep]
    exact .rest _ _
  | newConn hcallback hclosed hcall hdone =>
    rw [objects_loopStep hdone]
    exact actedAll_newConn hcall
  | handleMessage hcallback hcall hdone =>
    rw [objects_loopStep hdone]
    exact actedAll_handleMessage hcallback hcall
  | @handleWrite loop id result t _ hcallback hcall hdone =>
    rw [objects_loopStep hdone]
    exact actedAll_call (.handleWrite result) (if_pos hcallback)
      (fun other hne => if_neg fun heq => hne (by rw [hcallback] at heq; simpa using heq.symm))
        (.handleWrite result) hcall
  | runNext hnext hstart hcall => exact actedAll_runNext hnext hstart hcall
  | @idleShutdown loop id _ hcallback hcall =>
    obtain ⟨c, hid, hshutdown⟩ := Option.bind_eq_some_iff.mp hcall
    split at hshutdown
    · exact actedAll_call .shutdown (if_pos rfl) (fun other hne => if_neg (Ne.symm hne)) .shutdown hshutdown
    · cases hshutdown
  | destroy hended =>
    obtain ⟨c, hid, hclose⟩ := Option.bind_eq_some_iff.mp hended
    split at hclose
    · obtain rfl := Option.some.inj hclose
      exact ActedAll.set hid ⟨rfl, rfl, _, rfl, .close _ _⟩ fun _ _ => rfl
    · cases hclose

/-- The connections on which a step performs its activity are sound, and those that existed before are there. -/
theorem Managed.prepared [Fintype Loop] {phase : ℕ → Phase} (h : s.Managed phase) {action : ServerAction Loop}
    (hstep : s.step action = some s') :
    (∃ phase', Objects (s.prepared action) s.epollers phase') ∧ s.objects.length ≤ (s.prepared action).length ∧
      ∀ id c, (s.prepared action)[id]? = some c → s.objects[id]? = some c ∨
        s.objects.length = id ∧ ∃ now content,
          c.toTcpConnection = (Session.new id c.channel.fd now content .new).toTcpConnection ∧
            run (Phase.next id c.loop) .free c.history = some .accepted := by
  cases stepped_of_step hstep with
  | @newConn fd now content calls t _ hcallback hclosed hcall hdone =>
    obtain ⟨hadded, -, -⟩ := Coherent.add h hclosed now content
    refine ⟨⟨_, hadded.objects⟩, ?_, fun id c hid => ?_⟩
    · simp [TcpServer.prepared, addConnection]
    · have hsound := hadded.objects.sound id c hid
      rcases getElem?_concat_cases hid with ⟨-, hold⟩ | ⟨hnew, rfl⟩
      · exact Or.inl hold
      · subst hnew
        refine Or.inr ⟨rfl, now, content, rfl, ?_⟩
        have hhistory := hsound.history
        rw [Function.update_self] at hhistory
        exact hhistory
  | _ => exact ⟨⟨phase, h.objects⟩, Nat.le_refl _, fun id c hid => Or.inl hid⟩

end TcpServer

end WebServer.Util
