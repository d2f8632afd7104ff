import Mathlib.Logic.Function.Basic
import WebServer.Log.LogFiles
import WebServer.Log.LogLines

/-!
# From the log statements to the files

A log statement of a thread creates a `Logger`, whose destructor passes the record to `g_Output`; the program
has set this to `AsyncLogging::Append`. The formatting concerns the thread alone, the call of `Append`
comes later and in the order in which the threads get the mutex. A statement below the level that is set, of
the two lowest levels, does nothing.
-/

namespace WebServer.Log

open WebServer.Foundation
open WebServer.Util (Bytes ascii)

/-- The test of `LOG_DEBUG` and `LOG_INFO`; the other macros have none. -/
def Level.enabled (current : Level) : Level → Bool
  | debug => current = debug
  | info => current = debug ∨ current = info
  | _ => true

/-- What can happen next: a thread calls `tid()`, formats a record, or passes it on; the logging thread takes
a step; the level is set; or the logger is stopped. -/
inductive LogAction (Thread : Type) (localtime : Localtime) where
  | setLogLevel (level : Level)
  | tid (thread : Thread)
  | log (thread : Thread) (line : LogLine localtime)
  | output (thread : Thread)
  | write (results : ℕ → ℕ) (now : ℤ) (fuel : ℕ)
  | stop

/-- The variables of the threads, the records they have not passed on, `g_level`, and the asynchronous logger. -/
structure LogSystem (Thread : Type) where
  locals : Thread → ThreadLocals
  finished : Thread → Option Bytes
  level : Level
  files : FileLogging

/-- What is noted: a line that a thread logs, and one that it passes on, which is stored or lost. -/
inductive LogEvent (Thread : Type) where
  | logged (thread : Thread) (line : Bytes)
  | passed (thread : Thread) (line : Bytes) (stored : Bool)
deriving DecidableEq

namespace LogEvent

variable {Thread : Type} [DecidableEq Thread]

/-- The line that the thread logs. -/
def loggedBy (thread : Thread) : LogEvent Thread → Option Bytes
  | logged other line => if other = thread then some line else none
  | passed _ _ _ => none

/-- The line that the thread passes on. -/
def passedBy (thread : Thread) : LogEvent Thread → Option Bytes
  | logged _ _ => none
  | passed other line _ => if other = thread then some line else none

/-- The line that is stored. -/
def storedLine : LogEvent Thread → Option Bytes
  | logged _ _ => none
  | passed _ line stored => if stored then some line else none

end LogEvent

namespace LogSystem

variable {Thread : Type} [DecidableEq Thread] {localtime : Localtime}

/-- New threads and a new logger. -/
def started : LogSystem Thread := ⟨fun _ => .new, fun _ => none, .info, .started⟩

/-- One step, over the ids of the threads. -/
def step (gettid : Thread → ThreadId) (s : LogSystem Thread) :
    LogAction Thread localtime → Option (LogSystem Thread)
  | .setLogLevel level => some { s with level }
  | .tid thread => ((s.locals thread).tid (gettid thread)).map fun t =>
      { s with locals := Function.update s.locals thread t }
  | .log thread line =>
    if (s.finished thread).isSome then none
    else if s.level.enabled line.level then do
      let record ← Logger.record localtime (gettid thread) line.toLogCall (s.locals thread) line.insertions
      let t ← (s.locals thread).step (gettid thread) (.log line.toDatedCall)
      some { s with
        locals := Function.update s.locals thread t
        finished := Function.update s.finished thread (some record) }
    else some s
  | .output thread => (s.finished thread).bind fun record =>
      (s.files.step (.append record)).map fun files =>
        { s with files, finished := Function.update s.finished thread none }
  | .write results now fuel => (s.files.step (.thread results now fuel)).map fun files => { s with files }
  | .stop => (s.files.step .stop).map fun files => { s with files }

/-- What is noted at a step. -/
def events (gettid : Thread → ThreadId) (s : LogSystem Thread) : LogAction Thread localtime → List (LogEvent Thread)
  | .log thread line =>
    if s.level.enabled line.level then [.logged thread (line.text (gettid thread)
      ((s.locals thread).cachedTid ≠ 0))] else []
  | .output thread => (s.finished thread).toList.map fun record =>
      .passed thread record.dropLast !(s.files.logging.stored? record).isEmpty
  | _ => []

/-- What holds of the threads and the files in all runs, over what was noted. -/
structure Accounted (localtime : Localtime) (gettid : Thread → ThreadId) (history : List (LogEvent Thread))
    (s : LogSystem Thread) : Prop where
  cached : ∀ thread, (s.locals thread).Cached localtime (gettid thread)
  filed : s.files.Filed ((history.filterMap LogEvent.storedLine).map (· ++ [10]))
  passed : ∀ thread, history.filterMap (LogEvent.loggedBy thread) =
    history.filterMap (LogEvent.passedBy thread) ++ (s.finished thread).toList.map List.dropLast
  finished : ∀ thread, ∀ record ∈ s.finished thread, ∃ line, record = line ++ [10] ∧ 10 ∉ line
  oneLine : ∀ line ∈ history.filterMap LogEvent.storedLine, 10 ∉ line

variable {gettid : Thread → ThreadId} {history : List (LogEvent Thread)} {s : LogSystem Thread}

/-- A step of the logger with its files, other than `Append`, stores nothing. -/
theorem Accounted.write (h : Accounted localtime gettid history s) {action : FileAction} {files : FileLogging}
    (hquiet : s.files.keptRecord action = []) (hstep : s.files.step action = some files) :
    Accounted localtime gettid history { s with files } := by
  have hfiled := FileLogging.filed_step _ _ _ _ h.filed hstep
  rw [hquiet, List.append_nil] at hfiled
  exact ⟨h.cached, hfiled, h.passed, h.finished, h.oneLine⟩

/-- A thread finishes a record. -/
theorem Accounted.log (h : Accounted localtime gettid history s) {thread : Thread} {line : LogLine localtime}
    {record : Bytes} {t : ThreadLocals} (hfree : s.finished thread = none)
    (hrecord : Logger.record localtime (gettid thread) line.toLogCall (s.locals thread) line.insertions =
      some record)
    (hlocals : (s.locals thread).step (gettid thread) (.log line.toDatedCall) = some t) :
    Accounted localtime gettid
      (history ++ [.logged thread (line.text (gettid thread) ((s.locals thread).cachedTid ≠ 0))])
      { s with
        locals := Function.update s.locals thread t
        finished := Function.update s.finished thread (some record) } := by
  rw [line.record_eq (h.cached thread), Option.some.injEq] at hrecord
  have hstored : (history ++ [LogEvent.logged thread (line.text (gettid thread)
    ((s.locals thread).cachedTid ≠ 0))]).filterMap
      LogEvent.storedLine = history.filterMap LogEvent.storedLine := by
    rw [List.filterMap_append]
    exact List.append_nil _
  refine ⟨(Function.forall_update_iff _ fun other (t : ThreadLocals) => t.Cached localtime (gettid other)).mpr
      ⟨ThreadLocals.cached_step _ _ _ (h.cached thread) hlocals, fun other _ => h.cached other⟩, hstored ▸ h.filed,
    (Function.forall_update_iff _ fun other finished => List.filterMap (LogEvent.loggedBy other) _ =
      List.filterMap (LogEvent.passedBy other) _ ++ (Option.toList finished).map List.dropLast).mpr ⟨?_, ?_⟩,
    (Function.forall_update_iff _ fun _ finished => ∀ record ∈ finished, ∃ line, record = line ++ [10] ∧
      10 ∉ line).mpr
      ⟨?_, fun other _ => h.finished other⟩, hstored ▸ h.oneLine⟩
  · have hbefore := h.passed thread
    rw [hfree] at hbefore
    simp [LogEvent.loggedBy, LogEvent.passedBy, hbefore, ← hrecord]
  · intro other hother
    have hbefore := h.passed other
    simp [LogEvent.loggedBy, LogEvent.passedBy, hbefore, Ne.symm hother]
  · rintro record' hrecord'
    obtain rfl := Option.some.inj hrecord'
    exact ⟨_, hrecord.symm, line.lineEnd_text _ _⟩

/-- A thread passes a record on. -/
theorem Accounted.output (h : Accounted localtime gettid history s) {thread : Thread} {record : Bytes}
    {files : FileLogging} (hrecord : s.finished thread = some record)
    (hstep : s.files.step (.append record) = some files) :
    Accounted localtime gettid
      (history ++ [.passed thread record.dropLast !(s.files.logging.stored? record).isEmpty])
      { s with files, finished := Function.update s.finished thread none } := by
  obtain ⟨line, rfl, hline⟩ := h.finished thread record hrecord
  have hfiled := FileLogging.filed_step _ _ _ _ h.filed hstep
  have hmore : (history ++ [LogEvent.passed thread (line ++ [10]).dropLast
      !(s.files.logging.stored? (line ++ [10])).isEmpty]).filterMap LogEvent.storedLine =
        history.filterMap LogEvent.storedLine ++
          if (s.files.logging.stored? (line ++ [10])).isEmpty then [] else [line] := by
    rw [List.filterMap_append, List.dropLast_concat]
    cases (s.files.logging.stored? (line ++ [10])).isEmpty with
    | true => rfl
    | false => rfl
  refine ⟨h.cached, ?_,
    (Function.forall_update_iff _ fun other finished => List.filterMap (LogEvent.loggedBy other) _ =
      List.filterMap (LogEvent.passedBy other) _ ++ (Option.toList finished).map List.dropLast).mpr ⟨?_, ?_⟩,
    (Function.forall_update_iff _ fun _ finished => ∀ record ∈ finished, ∃ line, record = line ++ [10] ∧
      10 ∉ line).mpr
      ⟨fun _ hnone => (by cases hnone), fun other _ => h.finished other⟩, ?_⟩
  · rw [hmore, List.map_append]
    rcases s.files.logging.stored?_cases (line ++ [10]) with hstored | hstored
    · change FileLogging.Filed (_ ++ s.files.logging.stored? (line ++ [10])) files at hfiled
      rw [hstored] at hfiled ⊢
      exact hfiled
    · change FileLogging.Filed (_ ++ s.files.logging.stored? (line ++ [10])) files at hfiled
      rw [hstored] at hfiled ⊢
      exact hfiled
  · have hbefore := h.passed thread
    rw [hrecord] at hbefore
    simp [LogEvent.loggedBy, LogEvent.passedBy, hbefore]
  · intro other hother
    have hbefore := h.passed other
    simp [LogEvent.loggedBy, LogEvent.passedBy, hbefore, Ne.symm hother]
  · rw [hmore, List.forall_mem_append]
    refine ⟨h.oneLine, ?_⟩
    split_ifs
    · exact List.forall_mem_nil _
    · exact List.forall_mem_singleton.mpr hline

/-- Every step keeps the account. -/
theorem accounted_step (history : List (LogEvent Thread)) (s : LogSystem Thread)
    (action : LogAction Thread localtime)
    (s' : LogSystem Thread) (h : Accounted localtime gettid history s) (hstep : s.step gettid action = some s') :
    Accounted localtime gettid (history ++ s.events gettid action) s' := by
  have hquiet {s' : LogSystem Thread} (hsame : Accounted localtime gettid history s') :
      Accounted localtime gettid (history ++ []) s' := by rwa [List.append_nil]
  cases action with
  | setLogLevel level =>
    obtain rfl := Option.some.inj hstep
    exact hquiet ⟨h.cached, h.filed, h.passed, h.finished, h.oneLine⟩
  | tid thread =>
    obtain ⟨t, htid, rfl⟩ := Option.map_eq_some_iff.mp hstep
    obtain ⟨t', htid', hcached⟩ := (h.cached thread).tid_step
    obtain rfl := Option.some.inj (htid'.symm.trans htid)
    exact hquiet ⟨(Function.forall_update_iff _ fun other (t : ThreadLocals) =>
      t.Cached localtime (gettid other)).mpr
      ⟨hcached, fun other _ => h.cached other⟩, h.filed, h.passed, h.finished, h.oneLine⟩
  | log thread line =>
    obtain ⟨hfree, hstep⟩ := Option.ite_none_left_eq_some.mp hstep
    by_cases henabled : s.level.enabled line.level = true
    · rw [if_pos henabled] at hstep
      simp only [events, if_pos henabled]
      obtain ⟨record, hrecord, hstep⟩ := Option.bind_eq_some_iff.mp hstep
      obtain ⟨t, hlocals, hstep⟩ := Option.bind_eq_some_iff.mp hstep
      obtain rfl := Option.some.inj hstep
      exact h.log (Option.not_isSome_iff_eq_none.mp hfree) hrecord hlocals
    · rw [if_neg henabled] at hstep
      obtain rfl := Option.some.inj hstep
      simp only [events, if_neg henabled]
      exact hquiet h
  | output thread =>
    obtain ⟨record, hrecord, hstep⟩ := Option.bind_eq_some_iff.mp hstep
    obtain ⟨files, hfiles, rfl⟩ := Option.map_eq_some_iff.mp hstep
    simp only [events, hrecord, Option.toList_some, List.map_singleton]
    exact h.output hrecord hfiles
  | write results now fuel =>
    obtain ⟨files, hfiles, rfl⟩ := Option.map_eq_some_iff.mp hstep
    exact hquiet (h.write rfl hfiles)
  | stop =>
    obtain ⟨files, hfiles, rfl⟩ := Option.map_eq_some_iff.mp hstep
    exact hquiet (h.write rfl hfiles)

end LogSystem

end WebServer.Log
