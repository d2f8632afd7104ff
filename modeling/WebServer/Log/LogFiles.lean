import WebServer.Foundation.Packing
import WebServer.Foundation.Trace
import WebServer.Log.AsyncLoggingContent
import WebServer.Log.LogFile

/-!
# The files of the asynchronous logger

`ThreadFunc` has its log file in a local variable: the file is opened when the thread starts, takes the
buffers of each batch, is replaced by a new one behind a batch that has made it large, and is
destroyed when the thread returns. Here the logger runs together with its files, and writing a buffer is a
call of `LogFile::Write` with its results. Opening a file is taken to succeed.
-/

namespace WebServer.Log

open WebServer.Foundation
open WebServer.Util (Bytes)

/-- The constructor. -/
def LogFile.new : LogFile := ⟨[], 0, 0, 0, 0⟩

/-- The destructor. -/
def LogFile.close (log : LogFile) : LogFile := log.flush

/-- What can happen next. A step of the thread brings what a call of `Write` meets: how much each
`fwrite_unlocked` accepts, the time, and for how many turns its loop is followed. -/
inductive FileAction where
  | append (record : Bytes)
  | thread (results : ℕ → ℕ) (now : ℤ) (fuel : ℕ)
  | stop

/-- What it is for the logger alone. -/
def FileAction.async : FileAction → AsyncAction
  | .append record => .append record
  | .thread _ _ _ => .thread
  | .stop => .stop

/-- The logger, the files it has closed, and the local variable `log` of `ThreadFunc`. -/
structure FileLogging where
  logging : AsyncLogging
  closed : List LogFile
  log : Option LogFile

namespace AsyncLogging

/-- The record of an `Append` call, if it finds room. -/
def stored? (s : AsyncLogging) (record : Bytes) : List Bytes :=
  match s.current with
  | some current => if current.writablebytes ≥ record.length then [record] else []
  | none => []

/-- The record is stored or it is lost. -/
theorem stored?_cases (s : AsyncLogging) (record : Bytes) : s.stored? record = [record] ∨
    s.stored? record = [] := by
  unfold stored?
  split
  · split_ifs
    · exact Or.inl rfl
    · exact Or.inr rfl
  · exact Or.inr rfl

/-- The buffers that are not written yet, in the order in which they reach the file. -/
def inHand (s : AsyncLogging) : List BufferPtr := s.unwritten ++ s.buffersToWrite ++ [s.current]

/-- The blocks that are not written yet. -/
def blocks (s : AsyncLogging) : List Bytes := s.inHand.map BufferPtr.bytes

variable {s : AsyncLogging}

/-- Moving on outside of a batch changes none of the blocks. -/
theorem blocks_moved (s : AsyncLogging) (position : ThreadPosition) (h : s.position.ownsBatch = false)
    (hmoved : position.ownsBatch = false) : blocks { s with position } = s.blocks := by
  have hthere : unwritten { s with position } = [] := unwritten_eq_nil (Bool.not_eq_true _ ▸ hmoved)
  rw [blocks, blocks, inHand, inHand, hthere, unwritten_eq_nil (Bool.not_eq_true _ ▸ h)]

/-- Rolling over puts an empty block behind the others. -/
theorem blocks_rollOver (h : s.Consistent) : s.rollOver.blocks = s.blocks ++ [[]] := by
  have hempty := (replacement_spec h.next_empty).2
  change (s.unwritten ++ (s.buffersToWrite ++ [s.current]) ++ [replacement s.next]).map BufferPtr.bytes = _
  rw [List.map_append, List.map_singleton, hempty, blocks, inHand, List.append_assoc]

/-- A record that finds room comes at the end of the last block; without room an empty block is added. -/
theorem packs_append {front kept : List Bytes} (hconsistent : s.Consistent) (h : Packs (front ++ s.blocks) kept)
    (record : Bytes) : Packs (front ++ (s.append record).blocks) (kept ++ s.stored? record) := by
  obtain ⟨current, hcurrent⟩ := Option.isSome_iff_exists.mp hconsistent.current_some
  by_cases hroom : current.writablebytes ≥ record.length
  · have happend : s.append record = { s with current := some (current.append record) } := by
      simp only [append, hcurrent, if_pos hroom]
    have hstored : s.stored? record = [record] := by simp only [stored?, hcurrent, if_pos hroom]
    have hblocks : s.blocks = (s.unwritten ++ s.buffersToWrite).map BufferPtr.bytes ++ [current.data] := by
      rw [blocks, inHand, hcurrent, List.map_append, List.map_singleton]
      rfl
    rw [hblocks, ← List.append_assoc] at h
    have hmore := h.extend record
    rw [← FixedBuffer.data_append hroom, List.append_assoc] at hmore
    rw [happend, hstored, blocks, inHand, List.map_append]
    exact hmore
  · have happend : s.append record = s.rollOver := by simp only [append, hcurrent, if_neg hroom]
    have hstored : s.stored? record = [] := by simp only [stored?, hcurrent, if_neg hroom]
    rw [happend, hstored, blocks_rollOver hconsistent, List.append_nil, ← List.append_assoc]
    exact h.concatEmpty

/-- `Append` does not concern the thread. -/
theorem thread_append (s : AsyncLogging) (record : Bytes) : (s.append record).position = s.position ∧
    (s.append record).written = s.written ∧ (s.append record).writtenbytes = s.writtenbytes := by
  unfold append
  split
  · exact ⟨rfl, rfl, rfl⟩
  · split_ifs
    · exact ⟨rfl, rfl, rfl⟩
    · exact ⟨rfl, rfl, rfl⟩

/-- The swap leaves the blocks in their order and puts an empty one behind them. -/
theorem blocks_swap (h : s.Consistent) (hposition : ¬ s.position.ownsBatch) : s.swap.blocks = s.blocks ++ [[]] := by
  obtain ⟨current, hcurrent⟩ := Option.isSome_iff_exists.mp h.current_some
  have hbefore : s.blocks = (s.buffersToWrite ++ [some current]).map BufferPtr.bytes := by
    rw [blocks, inHand, unwritten_eq_nil hposition, hcurrent]
    rfl
  have hafter : s.swap.blocks =
      ((s.buffersToWrite ++ [some current]) ++ s.buffers ++ [s.newbufferCurrent]).map BufferPtr.bytes := by
    simp only [blocks, inHand, swap, hcurrent, unwritten, List.drop_zero]
  rw [hafter, hbefore, h.buffers_nil hposition, List.append_nil, List.map_append, List.map_singleton,
    h.newbufferCurrent_empty]

/-- Writing a buffer takes the first block away. -/
theorem blocks_write {index : ℕ} {buffer : FixedBuffer largeSize} (hposition : s.position = .writing index)
    (hbuffer : s.buffers[index]? = some (some buffer)) :
    s.blocks = buffer.data :: (s.write index (some buffer)).blocks := by
  obtain ⟨hindex, hget⟩ := List.getElem?_eq_some_iff.mp hbuffer
  have hdrop : s.unwritten = some buffer :: s.buffers.drop (index + 1) := by
    rw [unwritten_writing hposition, List.drop_eq_getElem_cons hindex, hget]
  rw [blocks, inHand, hdrop]
  rfl

/-- Behind the last buffer no block is left of the batch. -/
theorem blocks_rollFile {index : ℕ} (hposition : s.position = .writing index) (hend : s.buffers[index]? = none) :
    s.rollFile.blocks = s.blocks := by
  have hdrop : s.unwritten = [] := by
    rw [unwritten_writing hposition]
    exact List.drop_eq_nil_of_le (List.getElem?_eq_none_iff.mp hend)
  rw [blocks, blocks, inHand, inHand, hdrop]
  rfl

/-- Recycling the buffers changes none of the blocks. -/
theorem blocks_recycle (hposition : s.position = .recycling) : s.recycle.blocks = s.blocks := by
  unfold recycle
  cases refill s.newbufferCurrent s.newbufferNext s.buffers with
  | error fault => rfl
  | ok pointer => simp only [blocks, inHand, unwritten, hposition]

end AsyncLogging

namespace FileLogging

/-- The logger before its thread took a step. -/
def started : FileLogging := ⟨.started, [], none⟩

/-- What the next step of `ThreadFunc` does with its files. -/
def fileStep (s : FileLogging) (results : ℕ → ℕ) (now : ℤ) (fuel : ℕ) : Option (List LogFile × Option LogFile) :=
  match s.logging.position, s.log with
  | .start, _ => some (s.closed, some .new)
  | .loopHead, some log =>
    some (if s.logging.running then (s.closed, some log) else (s.closed ++ [log.close], none))
  | .writing index, some log =>
    match s.logging.buffers[index]? with
    | some buffer => (log.write (BufferPtr.bytes buffer) results now fuel).map fun log => (s.closed, some log)
    | none =>
      -- `log.reset` constructs the new file before it destroys the old one.
      some (if log.writtenBytes ≥ singleFileMaximumSize then (s.closed ++ [log.close], some .new)
        else (s.closed, some log))
  | _, log => some (s.closed, log)

/-- One step of the logger with its files. -/
def step (s : FileLogging) (action : FileAction) : Option FileLogging :=
  (s.logging.step action.async).bind fun logging =>
    match action with
    | .thread results now fuel => (s.fileStep results now fuel).map fun (closed, log) => ⟨logging, closed, log⟩
    | _ => some { s with logging }

/-- All files, in the order in which they were opened. -/
def files (s : FileLogging) : List LogFile := s.closed ++ s.log.toList

/-- The record of an `Append` call that is stored. -/
def keptRecord (s : FileLogging) : FileAction → List Bytes
  | .append record => s.logging.stored? record
  | _ => []

/-- The logger takes the same steps without its files. -/
theorem logging_step {s s' : FileLogging} {action : FileAction} (hstep : s.step action = some s') :
    s.logging.step action.async = some s'.logging := by
  obtain ⟨logging, hlogging, hfile⟩ := Option.bind_eq_some_iff.mp hstep
  rw [hlogging]
  cases action with
  | append record =>
    obtain rfl := Option.some.inj hfile
    rfl
  | thread results now fuel =>
    obtain ⟨files, -, rfl⟩ := Option.map_eq_some_iff.mp hfile
    rfl
  | stop =>
    obtain rfl := Option.some.inj hfile
    rfl

/-- The file is open from the start of the thread until it returns. -/
def Opened (s : FileLogging) : Prop := s.log.isSome ↔ s.logging.position ≠ .start ∧ s.logging.position ≠ .returned

/-- No file is open before the thread starts. -/
theorem Opened.log_eq_none {s : FileLogging} (h : s.Opened) (hposition : s.logging.position = .start) :
    s.log = none :=
  Option.not_isSome_iff_eq_none.mp fun hsome => (h.mp hsome).1 hposition

/-- The pointers are consistent, and the file is open when it is needed. -/
structure Sound (s : FileLogging) : Prop where
  consistent : s.logging.Consistent
  opened : s.Opened

/-- The logger starts so. -/
theorem sound_started : started.Sound := ⟨AsyncLogging.consistent_started,
    by simp [Opened, started, AsyncLogging.started]⟩

/-- The steps of the logger with its files, one constructor for each. -/
inductive FileStep (s : FileLogging) : FileAction → FileLogging → Prop where
  | append (record : Bytes) : FileStep s (.append record) { s with logging := s.logging.append record }
  | stop {logging : AsyncLogging} (h : s.logging.stopStep = some logging) : FileStep s .stop { s with logging }
  | start (h : s.logging.position = .start) {results : ℕ → ℕ} {now : ℤ} {fuel : ℕ} :
      FileStep s (.thread results now fuel) ⟨s.logging.start, s.closed, some .new⟩
  | enter (h : s.logging.position = .loopHead) (hrunning : s.logging.running = true) {results : ℕ → ℕ} {now : ℤ}
      {fuel : ℕ} :
        FileStep s (.thread results now fuel) { s with logging := { s.logging with position := .locking } }
  | leave {log : LogFile} (h : s.logging.position = .loopHead) (hlog : s.log = some log) {results : ℕ → ℕ} {now : ℤ}
      {fuel : ℕ} : FileStep s (.thread results now fuel)
        ⟨{ s.logging with position := .returned }, s.closed ++ [log.close], none⟩
  | wait (h : s.logging.position = .locking) {results : ℕ → ℕ} {now : ℤ} {fuel : ℕ} :
      FileStep s (.thread results now fuel) { s with logging := { s.logging with position := .waiting } }
  | swap (h : s.logging.position = .locking ∨ s.logging.position = .waiting) {results : ℕ → ℕ} {now : ℤ}
    {fuel : ℕ} :
      FileStep s (.thread results now fuel) { s with logging := s.logging.swap }
  | write {index : ℕ} {buffer : FixedBuffer largeSize} {log log' : LogFile} {results : ℕ → ℕ} {now : ℤ} {fuel : ℕ}
      (h : s.logging.position = .writing index) (hbuffer : s.logging.buffers[index]? = some (some buffer))
      (hlog : s.log = some log) (hwrite : log.write buffer.data results now fuel = some log') :
      FileStep s (.thread results now fuel)
        { s with logging := s.logging.write index (some buffer), log := some log' }
  | rollFile {index : ℕ} {log : LogFile} (h : s.logging.position = .writing index)
      (hend : s.logging.buffers[index]? = none) (hlog : s.log = some log)
      (hlarge : singleFileMaximumSize ≤ log.writtenBytes) {results : ℕ → ℕ} {now : ℤ} {fuel : ℕ} :
      FileStep s (.thread results now fuel) ⟨s.logging.rollFile, s.closed ++ [log.close], some .new⟩
  | keepFile {index : ℕ} {log : LogFile} (h : s.logging.position = .writing index)
      (hend : s.logging.buffers[index]? = none) (hlog : s.log = some log)
      (hsmall : log.writtenBytes < singleFileMaximumSize) {results : ℕ → ℕ} {now : ℤ} {fuel : ℕ} :
      FileStep s (.thread results now fuel) { s with logging := s.logging.rollFile }
  | recycle (h : s.logging.position = .recycling) {results : ℕ → ℕ} {now : ℤ} {fuel : ℕ} :
      FileStep s (.thread results now fuel) { s with logging := s.logging.recycle }

/-- Every step is one of those listed. -/
theorem fileStep_cases {s s' : FileLogging} {action : FileAction} (h : s.Sound) (hstep : s.step action = some s') :
    FileStep s action s' := by
  obtain ⟨logging, hlogging, hfile⟩ := Option.bind_eq_some_iff.mp hstep
  obtain ⟨-, ⟨record, haction, rfl⟩ | ⟨haction, hthread⟩ | ⟨haction, hstop⟩⟩ := AsyncLogging.step_cases hlogging
  · cases action with
    | append record' =>
      cases haction
      obtain rfl := Option.some.inj hfile
      exact .append record
    | thread results now fuel => cases haction
    | stop => cases haction
  · cases action with
    | append record => cases haction
    | stop => cases haction
    | thread results now fuel =>
      obtain ⟨⟨closed, log⟩, hfiles, rfl⟩ := Option.map_eq_some_iff.mp hfile
      have hopen (hstart : s.logging.position ≠ .start) (hreturned : s.logging.position ≠ .returned) :
          ∃ log, s.log = some log := Option.isSome_iff_exists.mp (h.opened.mpr ⟨hstart, hreturned⟩)
      cases hthread with
      | start hposition =>
        simp only [fileStep, hposition, Option.some.injEq, Prod.mk.injEq] at hfiles
        obtain ⟨rfl, rfl⟩ := hfiles
        exact .start hposition
      | enter hposition =>
        obtain ⟨open', hlog⟩ := hopen (by simp [hposition]) (by simp [hposition])
        by_cases hrunning : s.logging.running = true
        · simp only [fileStep, hposition, hlog, if_pos hrunning] at hfiles
          obtain ⟨rfl, rfl⟩ := Prod.mk.inj (Option.some.inj hfiles)
          simp only [if_pos hrunning, ← hlog]
          exact .enter hposition hrunning
        · simp only [fileStep, hposition, hlog, if_neg hrunning] at hfiles
          obtain ⟨rfl, rfl⟩ := Prod.mk.inj (Option.some.inj hfiles)
          simp only [if_neg hrunning]
          exact .leave hposition hlog
      | wait hposition hempty =>
        simp only [fileStep, hposition, Option.some.injEq, Prod.mk.injEq] at hfiles
        obtain ⟨rfl, rfl⟩ := hfiles
        exact .wait hposition
      | swap hposition =>
        have hpoint : s.logging.position = .locking ∨ s.logging.position = .waiting := hposition.imp_left And.left
        rcases hpoint with hpoint | hpoint
        · simp only [fileStep, hpoint, Option.some.injEq, Prod.mk.injEq] at hfiles
          obtain ⟨rfl, rfl⟩ := hfiles
          exact .swap (Or.inl hpoint)
        · simp only [fileStep, hpoint, Option.some.injEq, Prod.mk.injEq] at hfiles
          obtain ⟨rfl, rfl⟩ := hfiles
          exact .swap (Or.inr hpoint)
      | write index pointer hposition hbuffer =>
        obtain ⟨open', hlog⟩ := hopen (by simp [hposition]) (by simp [hposition])
        obtain ⟨buffer, rfl⟩ := Option.isSome_iff_exists.mp
          (h.consistent.buffers_some pointer (List.mem_of_getElem? hbuffer))
        simp only [fileStep, hposition, hlog, hbuffer] at hfiles
        obtain ⟨log', hwrite, hpair⟩ := Option.map_eq_some_iff.mp hfiles
        obtain ⟨rfl, rfl⟩ := Prod.mk.inj hpair
        exact .write hposition hbuffer hlog hwrite
      | rollFile index hposition hend =>
        obtain ⟨open', hlog⟩ := hopen (by simp [hposition]) (by simp [hposition])
        simp only [fileStep, hposition, hlog, hend, Option.some.injEq] at hfiles
        split_ifs at hfiles with hlarge
        · obtain ⟨rfl, rfl⟩ := Prod.mk.inj hfiles
          exact .rollFile hposition hend hlog hlarge
        · obtain ⟨rfl, rfl⟩ := Prod.mk.inj hfiles
          simp only [← hlog]
          exact .keepFile hposition hend hlog (Nat.lt_of_not_le hlarge)
      | recycle hposition =>
        simp only [fileStep, hposition, Option.some.injEq, Prod.mk.injEq] at hfiles
        obtain ⟨rfl, rfl⟩ := hfiles
        exact .recycle hposition
  · cases action with
    | append record => cases haction
    | thread results now fuel => cases haction
    | stop =>
      obtain rfl := Option.some.inj hfile
      exact .stop hstop

/-- The file stays open until the thread returns. -/
theorem opened_step {s s' : FileLogging} {action : FileAction} (h : s.Opened) (hstep : FileStep s action s') :
    s'.Opened := by
  unfold Opened at h ⊢
  cases hstep with
  | append record => simpa only [(s.logging.thread_append record).1] using h
  | stop hstop =>
    rw [AsyncLogging.stopStep_eq hstop]
    exact h
  | start hposition => simp [AsyncLogging.start]
  | enter hposition hrunning => simpa [hposition] using h
  | leave hposition hlog => simp
  | wait hposition => simpa [hposition] using h
  | swap hposition =>
    have hopen : s.log.isSome := by
      rcases hposition with hposition | hposition
      · exact h.mpr (by simp [hposition])
      · exact h.mpr (by simp [hposition])
    have hafter : s.logging.swap.position ≠ .start ∧ s.logging.swap.position ≠ .returned := by
      unfold AsyncLogging.swap
      split
      · rcases hposition with hposition | hposition
        · simp [hposition]
        · simp [hposition]
      · simp
    exact iff_of_true hopen hafter
  | write hposition hbuffer hlog hwrite => simp [AsyncLogging.write]
  | rollFile hposition hend hlog hlarge => simp [AsyncLogging.rollFile]
  | keepFile hposition hend hlog hsmall => simp [AsyncLogging.rollFile, hlog]
  | recycle hposition =>
    have hafter : s.logging.recycle.position ≠ .start ∧ s.logging.recycle.position ≠ .returned := by
      unfold AsyncLogging.recycle
      split
      · simp [hposition]
      · simp
    exact iff_of_true (h.mpr (by simp [hposition])) hafter

/-- Every step keeps the logger sound. -/
theorem sound_step {s s' : FileLogging} {action : FileAction} (h : s.Sound) (hstep : s.step action = some s') :
    s'.Sound :=
  ⟨AsyncLogging.consistent_step _ _ _ h.consistent (logging_step hstep),
    opened_step h.opened (fileStep_cases h hstep)⟩

/-- The records that were stored are whole, in the files and then in the blocks that are not written yet. -/
structure Stored (kept : List Bytes) (s : FileLogging) : Prop where
  packs : Packs (s.files.map LogFile.accepted ++ s.logging.blocks) kept
  written_eq : s.logging.written = s.files.flatMap LogFile.accepted

/-- A step of the thread that leaves the file as it is. -/
theorem Stored.unfiled {kept : List Bytes} {s : FileLogging} (h : Stored kept s) {logging : AsyncLogging}
    (hblocks : logging.blocks = s.logging.blocks) (hwritten : logging.written = s.logging.written) :
    Stored kept { s with logging } where
  packs := by
    rw [hblocks]
    exact h.packs
  written_eq := hwritten.trans h.written_eq

/-- The thread keeps the stored records whole. -/
theorem Stored.thread {kept : List Bytes} {s s' : FileLogging} (h : Stored kept s) (hsound : s.Sound)
    {results : ℕ → ℕ} {now : ℤ} {fuel : ℕ} (hstep : FileStep s (.thread results now fuel) s') : Stored kept s' := by
  have hpacks := h.packs
  have hwritten := h.written_eq
  cases hstep with
  | start hposition =>
    have hnone := hsound.opened.log_eq_none hposition
    have hblocks : s.logging.start.blocks = s.logging.blocks :=
      s.logging.blocks_moved .loopHead (hposition ▸ rfl) rfl
    simp only [files, hnone, Option.toList_none, List.append_nil] at hpacks hwritten
    refine ⟨?_, ?_⟩
    · rw [hblocks, files, Option.toList_some, List.map_append, List.append_assoc]
      exact hpacks.insertEmpty
    · rw [files, Option.toList_some, List.flatMap_append]
      exact hwritten.trans (List.append_nil _).symm
  | enter hposition hrunning =>
    exact h.unfiled (s.logging.blocks_moved .locking (hposition ▸ rfl) rfl) rfl
  | leave hposition hlog =>
    have hblocks := s.logging.blocks_moved .returned (hposition ▸ rfl) rfl
    refine ⟨?_, ?_⟩
    · rw [hblocks, files, Option.toList_none, List.append_nil, List.map_append]
      rw [files, hlog, Option.toList_some, List.map_append] at hpacks
      exact hpacks
    · rw [files, Option.toList_none, List.append_nil, List.flatMap_append]
      rw [files, hlog, Option.toList_some, List.flatMap_append] at hwritten
      exact hwritten
  | wait hposition =>
    exact h.unfiled (s.logging.blocks_moved .waiting (hposition ▸ rfl) rfl) rfl
  | swap hposition =>
    obtain ⟨current, hcurrent⟩ := Option.isSome_iff_exists.mp hsound.consistent.current_some
    have hafter : s.logging.swap.written = s.logging.written := by simp only [AsyncLogging.swap, hcurrent]
    have houtside : ¬ s.logging.position.ownsBatch := by
      rcases hposition with hposition | hposition
      · rw [hposition]
        exact Bool.false_ne_true
      · rw [hposition]
        exact Bool.false_ne_true
    refine ⟨?_, hafter.trans hwritten⟩
    rw [AsyncLogging.blocks_swap hsound.consistent houtside, ← List.append_assoc]
    exact hpacks.concatEmpty
  | @write index buffer log log' results now fuel hposition hbuffer hlog hwrite =>
    obtain ⟨-, haccepted, -⟩ := LogFile.write_eq hwrite
    rw [files, hlog, Option.toList_some] at hpacks hwritten
    refine ⟨?_, ?_⟩
    · rw [AsyncLogging.blocks_write hposition hbuffer, List.map_append, List.append_assoc] at hpacks
      rw [files, Option.toList_some, List.map_append, List.append_assoc, List.map_singleton, haccepted]
      exact hpacks.merge
    · rw [files, Option.toList_some, List.flatMap_append, List.flatMap_singleton, haccepted, ← List.append_assoc]
      rw [List.flatMap_append, List.flatMap_singleton] at hwritten
      exact congrArg (· ++ buffer.data) hwritten
  | @rollFile index log hposition hend hlog hlarge =>
    rw [files, hlog, Option.toList_some] at hpacks hwritten
    refine ⟨?_, ?_⟩
    · rw [AsyncLogging.blocks_rollFile hposition hend, files, Option.toList_some, List.map_append,
        List.append_assoc]
      rw [List.map_append] at hpacks
      rw [List.map_append]
      exact hpacks.insertEmpty
    · rw [files, Option.toList_some, List.flatMap_append]
      rw [List.flatMap_append] at hwritten
      rw [List.flatMap_append]
      exact hwritten.trans (List.append_nil _).symm
  | keepFile hposition hend hlog hsmall =>
    exact h.unfiled (AsyncLogging.blocks_rollFile hposition hend) rfl
  | recycle hposition =>
    have hafter : s.logging.recycle.written = s.logging.written := by
      unfold AsyncLogging.recycle
      split
      · rfl
      · rfl
    exact h.unfiled (AsyncLogging.blocks_recycle hposition) hafter

/-- Every step keeps the stored records whole. -/
theorem stored_step {kept : List Bytes} {s s' : FileLogging} {action : FileAction} (h : Stored kept s)
    (hsound : s.Sound) (hstep : FileStep s action s') : Stored (kept ++ s.keptRecord action) s' := by
  cases action with
  | append record =>
    cases hstep
    exact ⟨AsyncLogging.packs_append hsound.consistent h.packs record,
      (s.logging.thread_append record).2.1.trans h.written_eq⟩
  | thread results now fuel =>
    change Stored (kept ++ []) s'
    rw [List.append_nil]
    exact h.thread hsound hstep
  | stop =>
    change Stored (kept ++ []) s'
    cases hstep with
    | stop hstop =>
      rw [List.append_nil, AsyncLogging.stopStep_eq hstop]
      exact ⟨h.packs, h.written_eq⟩

/-- The sizes of the files. -/
structure Sized (s : FileLogging) : Prop where
  untouched : s.logging.position = .start → s.logging.writtenbytes = 0 ∧ s.closed = []
  counted : ∀ log ∈ s.log, log.writtenBytes = log.accepted.length ∧ log.writtenBytes = s.logging.writtenbytes
  flushed : ∀ log ∈ s.closed, log.flushed = log.accepted.length
  large : ∀ log ∈ s.files.dropLast, singleFileMaximumSize ≤ log.accepted.length
  small : (∀ index, s.logging.position ≠ .writing index) → ∀ log ∈ s.log,
    log.accepted.length < singleFileMaximumSize

/-- A step that leaves the files as they are and does not begin with a batch. -/
theorem Sized.unfiled {s : FileLogging} (h : Sized s) {logging : AsyncLogging}
    (hstart : logging.position = .start → s.logging.position = .start)
    (hbytes : logging.writtenbytes = s.logging.writtenbytes)
    (hbatch : (∀ index, logging.position ≠ .writing index) → ∀ index, s.logging.position ≠ .writing index) :
    Sized { s with logging } where
  untouched hposition := by
    change logging.writtenbytes = 0 ∧ s.closed = []
    rw [hbytes]
    exact h.untouched (hstart hposition)
  counted log hlog := by
    change _ ∧ _ = logging.writtenbytes
    rw [hbytes]
    exact h.counted log hlog
  flushed := h.flushed
  large := h.large
  small houtside := h.small (hbatch houtside)

/-- Behind an open file there are only large ones. -/
theorem Sized.large_closed {s : FileLogging} (h : Sized s) {log : LogFile} (hlog : s.log = some log) :
    ∀ log ∈ s.closed, singleFileMaximumSize ≤ log.accepted.length := by
  have hlarge := h.large
  rw [files, hlog, Option.toList_some, List.dropLast_concat] at hlarge
  exact hlarge

/-- A file that is destroyed has been flushed. -/
theorem Sized.flushed_close {s : FileLogging} (h : Sized s) (log : LogFile) :
    ∀ closed ∈ s.closed ++ [log.close], closed.flushed = closed.accepted.length := by
  intro closed hclosed
  rcases List.mem_append.mp hclosed with hold | hnew
  · exact h.flushed closed hold
  · rw [List.mem_singleton.mp hnew]
    rfl

/-- The thread replaces a file exactly when the file has become large. -/
theorem Sized.thread {s s' : FileLogging} (h : Sized s) {results : ℕ → ℕ} {now : ℤ} {fuel : ℕ}
    (hstep : FileStep s (.thread results now fuel) s') : Sized s' := by
  have hempty : LogFile.new.accepted.length < singleFileMaximumSize := by decide
  cases hstep with
  | start hposition =>
    obtain ⟨hbytes, hclosed⟩ := h.untouched hposition
    refine ⟨by simp [AsyncLogging.start], ?_, h.flushed, ?_, ?_⟩
    · rintro log hlog
      obtain rfl := Option.some.inj hlog
      exact ⟨rfl, hbytes.symm⟩
    · rw [files, hclosed]
      rintro log hlog
      cases hlog
    · rintro - log hlog
      obtain rfl := Option.some.inj hlog
      exact hempty
  | enter hposition hrunning => exact h.unfiled (by simp) rfl (by simp [hposition])
  | leave hposition hlog =>
    refine ⟨by simp, by simp, h.flushed_close _, ?_, by simp⟩
    rw [files, Option.toList_none, List.append_nil, List.dropLast_concat]
    exact h.large_closed hlog
  | wait hposition => exact h.unfiled (by simp) rfl (by simp [hposition])
  | swap hposition =>
    have hafter : s.logging.swap.writtenbytes = s.logging.writtenbytes := by
      unfold AsyncLogging.swap
      cases s.logging.current <;> rfl
    refine h.unfiled ?_ hafter fun _ => ?_
    · intro hstart
      unfold AsyncLogging.swap at hstart
      cases hcurrent : s.logging.current with
      | none => simpa [hcurrent] using hstart
      | some current => simp [hcurrent] at hstart
    · rcases hposition with hposition | hposition
      · simp [hposition]
      · simp [hposition]
  | @write index buffer log log' results now fuel hposition hbuffer hlog hwrite =>
    obtain ⟨-, haccepted, hcount⟩ := LogFile.write_eq hwrite
    obtain ⟨hsize, hbytes⟩ := h.counted log hlog
    refine ⟨by simp [AsyncLogging.write], ?_, h.flushed, ?_, fun houtside => absurd rfl (houtside (index + 1))⟩
    · rintro log hlog
      obtain rfl := Option.some.inj hlog
      rw [hcount, haccepted, List.length_append, ← hsize]
      exact ⟨rfl, congrArg (· + buffer.data.length) hbytes⟩
    · rw [files, Option.toList_some, List.dropLast_concat]
      exact h.large_closed hlog
  | @rollFile index log hposition hend hlog hlarge =>
    obtain ⟨hsize, hbytes⟩ := h.counted log hlog
    have hreset : s.logging.rollFile.writtenbytes = 0 := if_pos (hbytes ▸ hlarge)
    refine ⟨by simp [AsyncLogging.rollFile], ?_, h.flushed_close log, ?_, ?_⟩
    · rintro log hlog
      obtain rfl := Option.some.inj hlog
      exact ⟨rfl, hreset.symm⟩
    · rw [files, Option.toList_some, List.dropLast_concat]
      intro closed hclosed
      rcases List.mem_append.mp hclosed with hold | hnew
      · exact h.large_closed hlog closed hold
      · rw [List.mem_singleton.mp hnew]
        exact hsize ▸ hlarge
    · rintro - log hlog
      obtain rfl := Option.some.inj hlog
      exact hempty
  | @keepFile index log hposition hend hlog hsmall =>
    obtain ⟨hsize, hbytes⟩ := h.counted log hlog
    have hsame : s.logging.rollFile.writtenbytes = s.logging.writtenbytes :=
      if_neg (hbytes ▸ Nat.not_le_of_lt hsmall)
    refine ⟨by simp [AsyncLogging.rollFile], ?_, h.flushed, h.large, ?_⟩
    · intro other hother
      rw [hsame]
      exact h.counted other hother
    · rintro - other hother
      obtain rfl := Option.some.inj (hlog.symm.trans hother)
      exact hsize ▸ hsmall
  | recycle hposition =>
    have hafter : s.logging.recycle.position ≠ .start ∧ s.logging.recycle.writtenbytes =
      s.logging.writtenbytes := by
      unfold AsyncLogging.recycle
      cases AsyncLogging.refill s.logging.newbufferCurrent s.logging.newbufferNext s.logging.buffers with
      | error fault => simp [hposition]
      | ok pointer => simp
    exact h.unfiled (fun hstart => absurd hstart hafter.1) hafter.2 fun _ => by simp [hposition]

/-- Every step keeps the sizes. -/
theorem sized_step {s s' : FileLogging} {action : FileAction} (h : Sized s) (hstep : FileStep s action s') :
    Sized s' := by
  cases action with
  | append record =>
    cases hstep
    obtain ⟨hposition, -, hbytes⟩ := s.logging.thread_append record
    exact h.unfiled (fun hstart => hposition ▸ hstart) hbytes (by rw [hposition]; exact id)
  | thread results now fuel => exact h.thread hstep
  | stop =>
    cases hstep with
    | stop hstop =>
      rw [AsyncLogging.stopStep_eq hstop]
      exact h.unfiled id rfl id

/-- What holds of the logger and its files in all runs, over the records that were stored. -/
structure Filed (kept : List Bytes) (s : FileLogging) : Prop where
  sound : s.Sound
  stored : Stored kept s
  sized : Sized s

/-- Every step keeps it. -/
theorem filed_step (kept : List Bytes) (s : FileLogging) (action : FileAction) (s' : FileLogging) (h : Filed kept s)
    (hstep : s.step action = some s') : Filed (kept ++ s.keptRecord action) s' := by
  have hcase := fileStep_cases h.sound hstep
  exact ⟨sound_step h.sound hstep, stored_step h.stored h.sound hcase, sized_step h.sized hcase⟩

/-- Two records, one batch, and the file is closed. -/
def batchActions : List FileAction :=
  [.thread (fun _ => 0) 0 0, .append [7], .append [8, 9], .thread (fun _ => 0) 0 0, .thread (fun _ => 0) 0 0, .stop,
    .thread (fun _ => 0) 0 0, .thread (fun _ => 2) 100 3, .thread (fun _ => 0) 0 0, .thread (fun _ => 0) 0 0,
    .thread (fun _ => 0) 0 0]

end FileLogging

end WebServer.Log
