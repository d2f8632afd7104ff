import WebServer.Foundation.Run
import WebServer.Log.FixedBuffer

/-!
# The asynchronous logger

The state holds the members of `AsyncLogging` together with the local variables and the
program position of `ThreadFunc`. An action is one `Append` call of any thread, which runs
under `mutex_`, the next step of `ThreadFunc`, or the next step of `Stop`. Waiting on
`cond_` releases the mutex, so `Append` calls may come between the test of
`buffers_to_write_` and the swap; the wait may end at any time, because of a notification,
of the timeout, or for no reason.

`LogFile::Write` is taken as one step that puts the whole block into the file. Taking the
last element of an empty vector and using a null `BufferPtr` are undefined in C++; they
are recorded as a fault, after which the run does not continue.
-/

namespace WebServer.Log

open WebServer.Util (Bytes)

/-- `BufferPtr`: a unique pointer to a large buffer, null when it was moved from. -/
abbrev BufferPtr := Option (FixedBuffer largeSize)

/-- `kSingleFileMaximumSize`. -/
def singleFileMaximumSize : ℕ := 1024 * 1024 * 1024

/-- The uses of vectors and pointers which C++ leaves undefined. -/
inductive Fault where
  | emptyVector
  | nullBuffer
deriving DecidableEq

/-- The program position of `ThreadFunc`. -/
inductive ThreadPosition where
  | start
  | loopHead
  | locking
  | waiting
  | writing (index : ℕ)
  | recycling
  | returned
deriving DecidableEq

/-- The program position of `Stop`. -/
inductive StopPosition where
  | notCalled
  | cleared
  | notified
  | joined
deriving DecidableEq

/-- The members of `AsyncLogging` and the locals of `ThreadFunc`. -/
structure AsyncLogging where
  running : Bool
  current : BufferPtr
  next : BufferPtr
  buffersToWrite : List BufferPtr
  position : ThreadPosition
  newbufferCurrent : BufferPtr
  newbufferNext : BufferPtr
  buffers : List BufferPtr
  written : Bytes
  writtenbytes : ℕ
  stopPosition : StopPosition
  fault : Option Fault
deriving DecidableEq

/-- What can happen next. -/
inductive AsyncAction where
  | append (record : Bytes)
  | thread
  | stop
deriving DecidableEq

/-- The bytes an action passes to `Append`. -/
def AsyncAction.record : AsyncAction → Bytes
  | .append record => record
  | _ => []

namespace AsyncLogging

/-- The logger after `StartAsyncLogging` set `running_` and before its thread took a step. -/
def started : AsyncLogging where
  running := true
  current := some .new
  next := some .new
  buffersToWrite := []
  position := .start
  newbufferCurrent := none
  newbufferNext := none
  buffers := []
  written := []
  writtenbytes := 0
  stopPosition := .notCalled
  fault := none

/-- The buffer that replaces a full `current_`: `next_` if there is one, else a new one. -/
def replacement : BufferPtr → BufferPtr
  | some next => some next
  | none => some .new

/-- The second branch of `Append`: `current_` is queued for the thread and replaced. -/
def rollOver (s : AsyncLogging) : AsyncLogging :=
  { s with
    buffersToWrite := s.buffersToWrite ++ [s.current]
    current := replacement s.next
    next := none }

/-- `Append(data, len)`. -/
def append (s : AsyncLogging) (record : Bytes) : AsyncLogging :=
  match s.current with
  | none => { s with fault := some .nullBuffer }
  | some current =>
    if current.writablebytes ≥ record.length then { s with current := some (current.append record) }
    else s.rollOver

/-- The locals of `ThreadFunc` are created. -/
def start (s : AsyncLogging) : AsyncLogging :=
  { s with
    newbufferCurrent := some (FixedBuffer.new.setBufferZero)
    newbufferNext := some (FixedBuffer.new.setBufferZero)
    buffers := []
    position := .loopHead }

/-- The end of the critical section: take the pending buffers and put the spares in place. -/
def swap (s : AsyncLogging) : AsyncLogging :=
  match s.current with
  | none => { s with fault := some .nullBuffer }
  | some current =>
    { s with
      buffers := s.buffersToWrite ++ [some current]
      buffersToWrite := s.buffers
      current := s.newbufferCurrent
      newbufferCurrent := none
      next := if s.next.isNone then s.newbufferNext else s.next
      newbufferNext := if s.next.isNone then none else s.newbufferNext
      position := .writing 0 }

/-- Write the buffer at the given index and go on to the next one. -/
def write (s : AsyncLogging) (index : ℕ) : BufferPtr → AsyncLogging
  | none => { s with fault := some .nullBuffer }
  | some buffer =>
    { s with
      written := s.written ++ buffer.data
      writtenbytes := s.writtenbytes + buffer.len
      position := .writing (index + 1) }

/-- After the last buffer, start a new file when the current one is large. -/
def rollFile (s : AsyncLogging) : AsyncLogging :=
  { s with
    writtenbytes := if s.writtenbytes ≥ singleFileMaximumSize then 0 else s.writtenbytes
    position := .recycling }

/-- `std::move(buffers.back())`, `buffers.pop_back()` and `SetBufferZero()`. -/
def takeBack (buffers : List BufferPtr) : Except Fault (BufferPtr × List BufferPtr) :=
  match buffers.getLast? with
  | none => .error .emptyVector
  | some none => .error .nullBuffer
  | some (some buffer) => .ok (some buffer.setBufferZero, buffers.dropLast)

/-- One refilling branch: only when the tested pointer is null, assign `newbuffer_current`. -/
def takeBackIf (missing : Bool) (newbufferCurrent : BufferPtr) (buffers : List BufferPtr) :
    Except Fault (BufferPtr × List BufferPtr) :=
  if missing then takeBack buffers else .ok (newbufferCurrent, buffers)

/-- Refill the spares from the written buffers; both branches assign `newbuffer_current`. -/
def refill (newbufferCurrent newbufferNext : BufferPtr) (buffers : List BufferPtr) :
    Except Fault BufferPtr := do
  let buffers := if buffers.length > 2 then buffers.take 2 else buffers
  let (newbufferCurrent, buffers) ← takeBackIf newbufferCurrent.isNone newbufferCurrent buffers
  let (newbufferCurrent, _) ← takeBackIf newbufferNext.isNone newbufferCurrent buffers
  return newbufferCurrent

/-- The end of the loop body. -/
def recycle (s : AsyncLogging) : AsyncLogging :=
  match refill s.newbufferCurrent s.newbufferNext s.buffers with
  | .error fault => { s with fault := some fault }
  | .ok newbufferCurrent =>
    { s with newbufferCurrent := newbufferCurrent, buffers := [], position := .loopHead }

/-- The next step of `ThreadFunc`. -/
def threadStep (s : AsyncLogging) : Option AsyncLogging :=
  match s.position with
  | .start => some s.start
  | .loopHead => some { s with position := if s.running then .locking else .returned }
  | .locking => if s.buffersToWrite.isEmpty then some { s with position := .waiting } else some s.swap
  | .waiting => some s.swap
  | .writing index =>
    match s.buffers[index]? with
    | some buffer => some (s.write index buffer)
    | none => some s.rollFile
  | .recycling => some s.recycle
  | .returned => none

/-- The steps of the thread, one constructor for each, with the guard under which it is taken. -/
inductive ThreadStep (s : AsyncLogging) : AsyncLogging → Prop where
  | start (h : s.position = .start) : ThreadStep s s.start
  | enter (h : s.position = .loopHead) :
      ThreadStep s { s with position := if s.running then .locking else .returned }
  | wait (h : s.position = .locking) (hempty : s.buffersToWrite = []) :
      ThreadStep s { s with position := .waiting }
  | swap (h : s.position = .locking ∧ s.buffersToWrite ≠ [] ∨ s.position = .waiting) :
      ThreadStep s s.swap
  | write (index : ℕ) (buffer : BufferPtr) (h : s.position = .writing index)
      (hbuffer : s.buffers[index]? = some buffer) : ThreadStep s (s.write index buffer)
  | rollFile (index : ℕ) (h : s.position = .writing index) (hend : s.buffers[index]? = none) :
      ThreadStep s s.rollFile
  | recycle (h : s.position = .recycling) : ThreadStep s s.recycle

/-- Every step of the thread is one of those listed. -/
theorem threadStep_cases {s s' : AsyncLogging} (hstep : s.threadStep = some s') : ThreadStep s s' := by
  rw [threadStep] at hstep
  cases hposition : s.position with
  | start =>
    rw [hposition] at hstep
    exact Option.some.inj hstep ▸ .start hposition
  | loopHead =>
    rw [hposition] at hstep
    exact Option.some.inj hstep ▸ .enter hposition
  | locking =>
    simp only [hposition, List.isEmpty_iff] at hstep
    split at hstep
    · next hempty => exact Option.some.inj hstep ▸ .wait hposition hempty
    · next hpending => exact Option.some.inj hstep ▸ .swap (Or.inl ⟨hposition, hpending⟩)
  | waiting =>
    rw [hposition] at hstep
    exact Option.some.inj hstep ▸ .swap (Or.inr hposition)
  | writing index =>
    simp only [hposition] at hstep
    split at hstep
    · next buffer hbuffer => exact Option.some.inj hstep ▸ .write index buffer hposition hbuffer
    · next hend => exact Option.some.inj hstep ▸ .rollFile index hposition hend
  | recycling =>
    rw [hposition] at hstep
    exact Option.some.inj hstep ▸ .recycle hposition
  | returned =>
    rw [hposition] at hstep
    cases hstep

/-- The next step of `Stop`: clear `running_`, notify, join the thread. -/
def stopStep (s : AsyncLogging) : Option AsyncLogging :=
  match s.stopPosition with
  | .notCalled => some { s with running := false, stopPosition := .cleared }
  | .cleared => some { s with stopPosition := .notified }
  | .notified => if s.position = .returned then some { s with stopPosition := .joined } else none
  | .joined => none

/-- One step of the logger; after a fault there is none. -/
def step (s : AsyncLogging) (action : AsyncAction) : Option AsyncLogging :=
  if s.fault.isSome then none
  else match action with
    | .append record => some (s.append record)
    | .thread => s.threadStep
    | .stop => s.stopStep

/-- A step of the logger is one of a caller, of the thread or of `Stop`. -/
theorem step_cases {s s' : AsyncLogging} {action : AsyncAction} (hstep : s.step action = some s') :
    s.fault = none ∧
      ((∃ record, action = .append record ∧ s' = s.append record) ∨
        (action = .thread ∧ ThreadStep s s') ∨ (action = .stop ∧ s.stopStep = some s')) := by
  unfold step at hstep
  split at hstep
  · cases hstep
  · next hfault =>
    refine ⟨by simpa using hfault, ?_⟩
    cases action with
    | append record => exact Or.inl ⟨record, rfl, (Option.some.inj hstep).symm⟩
    | thread => exact Or.inr (Or.inl ⟨rfl, threadStep_cases hstep⟩)
    | stop => exact Or.inr (Or.inr ⟨rfl, hstep⟩)

/-- `Stop` only moves its own position and clears `running_`. -/
theorem stopStep_eq {s s' : AsyncLogging} (hstep : s.stopStep = some s') :
    s' = { s with running := s'.running, stopPosition := s'.stopPosition } := by
  rw [stopStep] at hstep
  split at hstep
  · exact Option.some.inj hstep ▸ rfl
  · exact Option.some.inj hstep ▸ rfl
  · split at hstep
    · exact Option.some.inj hstep ▸ rfl
    · cases hstep
  · cases hstep

/-- The taken buffers that are not written yet. -/
def unwritten (s : AsyncLogging) : List BufferPtr :=
  match s.position with
  | .writing index => s.buffers.drop index
  | _ => []

end AsyncLogging

/-- The bytes a pointer gives access to. -/
def BufferPtr.bytes : BufferPtr → Bytes
  | none => []
  | some buffer => buffer.data

namespace AsyncLogging

/-- Everything the logger has in hand, in the order in which it reaches the file. -/
def content (s : AsyncLogging) : Bytes :=
  s.written ++ s.unwritten.flatMap BufferPtr.bytes ++ s.buffersToWrite.flatMap BufferPtr.bytes ++
    BufferPtr.bytes s.current

end AsyncLogging

end WebServer.Log
