import WebServer.Log.LogFiles

/-!
# What the log files have flushed

`Write` flushes the stream when the last write that stored something came more than `kFlushInterval` seconds
behind the last flush. It asks only when it is called, and a call with an empty block never flushes what the
calls before it have left. So there is no bound on how long bytes stay in the stream, but there is one
on when they came there: not later than `kFlushInterval` seconds after the last flush.
-/

namespace WebServer.Log

open WebServer.Foundation
open WebServer.Util (Bytes)

/-- A call that returns has flushed everything, or it has left the flushed part alone and stored its block no
later than `kFlushInterval` seconds after the last flush. -/
theorem LogFile.flushed_write {log log' : LogFile} {data : Bytes} {results : ℕ → ℕ} {now : ℤ} {fuel : ℕ}
    (h : log.write data results now fuel = some log') : log'.flushed = log'.accepted.length ∨
      log'.flushed = log.flushed ∧ log'.lastFlush = log.lastFlush ∧
        (data ≠ [] → now - log.lastFlush ≤ flushInterval) := by
  obtain ⟨log₁, hloop, rfl⟩ := Option.map_eq_some_iff.mp h
  obtain ⟨-, rfl⟩ := loop_writeTurn_eq hloop
  by_cases hsome : data.length ≠ 0
  · simp only [account, if_pos hsome]
    split_ifs with hlate
    · exact Or.inl rfl
    · exact Or.inr ⟨rfl, rfl, fun _ => Int.not_lt.mp hlate⟩
  · simp only [account, if_neg hsome]
    split_ifs
    · exact Or.inl rfl
    · exact Or.inr ⟨rfl, rfl, fun hne => absurd (List.eq_nil_of_length_eq_zero (not_not.mp hsome)) hne⟩

/-- The last block came no later than `kFlushInterval` seconds after the last flush. -/
def LogFile.Recent (log : LogFile) : Prop := log.lastWrite - log.lastFlush ≤ flushInterval

/-- A call that returns leaves it so. -/
theorem LogFile.Recent.write {log log' : LogFile} (hrecent : log.Recent) {data : Bytes} {results : ℕ → ℕ} {now : ℤ}
    {fuel : ℕ} (h : log.write data results now fuel = some log') : log'.Recent := by
  obtain ⟨log₁, hloop, rfl⟩ := Option.map_eq_some_iff.mp h
  obtain ⟨-, rfl⟩ := loop_writeTurn_eq hloop
  unfold Recent at hrecent ⊢
  by_cases hsome : data.length ≠ 0
  · simp only [account, if_pos hsome]
    split_ifs with hlate
    · simp [flush, flushInterval]
    · exact Int.not_lt.mp hlate
  · simp only [account, if_neg hsome, gt_iff_lt, if_neg (Int.not_lt.mpr hrecent)]
    exact hrecent

/-- An empty block changes nothing. -/
theorem LogFile.Recent.write_nil {log log' : LogFile} (hrecent : log.Recent) {results : ℕ → ℕ} {now : ℤ} {fuel : ℕ}
    (h : log.write [] results now fuel = some log') : log' = log := by
  obtain ⟨log₁, hloop, rfl⟩ := Option.map_eq_some_iff.mp h
  obtain ⟨-, rfl⟩ := loop_writeTurn_eq hloop
  have hzero : ¬ ([] : Bytes).length ≠ 0 := not_not.mpr rfl
  simp only [account, if_neg hzero, gt_iff_lt, if_neg (Int.not_lt.mpr hrecent), List.append_nil]

namespace FileLogging

/-- The time and the block of a call of `Write`. -/
def blockWritten (s : FileLogging) : FileAction → List (ℤ × Bytes)
  | .thread _ now _ =>
    match s.logging.position with
    | .writing index => (s.logging.buffers[index]?).toList.map fun buffer => (now, BufferPtr.bytes buffer)
    | _ => []
  | _ => []

/-- The blocks that were written, with their times, are the closed files, what the open file has flushed, and
what it has accepted since, no later than `kFlushInterval` seconds after it was flushed. -/
def Flushed (written : List (ℤ × Bytes)) (s : FileLogging) : Prop :=
  ∃ past early late, written = past ++ (early ++ late) ∧ past.flatMap Prod.snd = s.closed.flatMap LogFile.accepted ∧
    (early ++ late).flatMap Prod.snd = s.log.toList.flatMap LogFile.accepted ∧
    ∀ log ∈ s.log, log.flushed = (early.flatMap Prod.snd).length ∧
      ∀ block ∈ late, block.2 ≠ [] → block.1 - log.lastFlush ≤ flushInterval

/-- With a new file everything before is in closed ones. -/
theorem Flushed.renew {written : List (ℤ × Bytes)} {s : FileLogging} (h : Flushed written s)
    {logging : AsyncLogging}
    {closed : List LogFile} (hclosed : closed.flatMap LogFile.accepted = s.files.flatMap LogFile.accepted)
    {log : Option LogFile} (hlog : ∀ file ∈ log, file = .new) : Flushed written ⟨logging, closed, log⟩ := by
  obtain ⟨past, early, late, rfl, hpast, hopen, -⟩ := h
  refine ⟨past ++ (early ++ late), [], [], (List.append_nil _).symm, ?_, ?_, ?_⟩
  · rw [List.flatMap_append, hpast, hopen, hclosed, files, List.flatMap_append]
  · cases log with
    | none => rfl
    | some file =>
      rw [hlog file rfl]
      rfl
  · intro file hfile
    rw [hlog file hfile]
    exact ⟨rfl, fun _ hblock => absurd hblock List.not_mem_nil⟩

/-- A write flushes everything, or leaves its block behind what has been flushed. -/
theorem Flushed.write {written : List (ℤ × Bytes)} {s : FileLogging} (h : Flushed written s)
    {logging : AsyncLogging}
    {data : Bytes} {log log' : LogFile} {results : ℕ → ℕ} {now : ℤ} {fuel : ℕ} (hlog : s.log = some log)
    (hwrite : log.write data results now fuel = some log') :
    Flushed (written ++ [(now, data)]) ⟨logging, s.closed, some log'⟩ := by
  obtain ⟨past, early, late, rfl, hpast, hopen, hflushed⟩ := h
  obtain ⟨-, haccepted, -⟩ := LogFile.write_eq hwrite
  obtain ⟨hearly, hlate⟩ := hflushed log hlog
  have hmore : (early ++ late ++ [(now, data)]).flatMap Prod.snd = log'.accepted := by
    rw [List.flatMap_append, hopen, hlog, Option.toList_some, List.flatMap_singleton, List.flatMap_singleton,
      haccepted]
  rcases LogFile.flushed_write hwrite with hall | ⟨hsame, hlast, hsoon⟩
  · refine ⟨past, early ++ late ++ [(now, data)], [],
      by simp only [List.append_assoc, List.append_nil], hpast, ?_, ?_⟩
    · rw [List.append_nil, hmore, Option.toList_some, List.flatMap_singleton]
    · rintro file hfile
      obtain rfl := Option.some.inj hfile
      exact ⟨by rw [hall, hmore], fun _ hblock => absurd hblock List.not_mem_nil⟩
  · refine ⟨past, early, late ++ [(now, data)], by simp only [List.append_assoc], hpast, ?_, ?_⟩
    · rw [← List.append_assoc, hmore, Option.toList_some, List.flatMap_singleton]
    · rintro file hfile
      obtain rfl := Option.some.inj hfile
      rw [hsame, hlast]
      refine ⟨hearly, fun block hblock hne => ?_⟩
      rcases List.mem_append.mp hblock with hold | hnew
      · exact hlate block hold hne
      · obtain rfl := List.mem_singleton.mp hnew
        exact hsoon hne

/-- Every step keeps the account of what has been flushed. -/
theorem flushed_step {written : List (ℤ × Bytes)} {s s' : FileLogging} {action : FileAction} (h : Flushed written s)
    (hopened : s.Opened) (hstep : FileStep s action s') : Flushed (written ++ s.blockWritten action) s' := by
  have hquiet (hnote : s.blockWritten action = []) (hsame : Flushed written s') :
      Flushed (written ++ s.blockWritten action) s' := by
    rw [hnote, List.append_nil]
    exact hsame
  cases hstep with
  | append record => exact hquiet rfl h
  | stop hstop => exact hquiet rfl h
  | start hposition =>
    have hnone := hopened.log_eq_none hposition
    refine hquiet (by simp [blockWritten, hposition]) (h.renew ?_ fun file hfile => (Option.some.inj hfile).symm)
    rw [files, hnone, Option.toList_none, List.append_nil]
  | enter hposition hrunning => exact hquiet (by simp [blockWritten, hposition]) h
  | leave hposition hlog =>
    refine hquiet (by simp [blockWritten, hposition]) (h.renew ?_ fun file hfile => by cases hfile)
    rw [files, hlog, Option.toList_some, List.flatMap_append, List.flatMap_append]
    rfl
  | wait hposition => exact hquiet (by simp [blockWritten, hposition]) h
  | swap hposition =>
    rcases hposition with hposition | hposition
    · exact hquiet (by simp [blockWritten, hposition]) h
    · exact hquiet (by simp [blockWritten, hposition]) h
  | @write index buffer log log' results now fuel hposition hbuffer hlog hwrite =>
    have hnote : s.blockWritten (.thread results now fuel) = [(now, buffer.data)] := by
      simp only [blockWritten, hposition, hbuffer, Option.toList_some, List.map_singleton]
      rfl
    rw [hnote]
    exact h.write hlog hwrite
  | @rollFile index log hposition hend hlog hlarge =>
    refine hquiet (by simp [blockWritten, hposition, hend]) (h.renew ?_ fun file hfile =>
      (Option.some.inj hfile).symm)
    rw [files, hlog, Option.toList_some, List.flatMap_append, List.flatMap_append]
    rfl
  | keepFile hposition hend hlog hsmall => exact hquiet (by simp [blockWritten, hposition, hend]) h
  | recycle hposition => exact hquiet (by simp [blockWritten, hposition]) h

/-- Every step keeps the last block of the open file near its last flush. -/
theorem recent_step {s s' : FileLogging} {action : FileAction} (h : ∀ log ∈ s.log, log.Recent)
    (hstep : FileStep s action s') : ∀ log ∈ s'.log, log.Recent := by
  have hnew : LogFile.new.Recent := by simp [LogFile.Recent, LogFile.new, flushInterval]
  cases hstep with
  | start hposition => exact fun log hlog => Option.some.inj hlog ▸ hnew
  | leave hposition hlog => exact fun log hlog => by cases hlog
  | write hposition hbuffer hlog hwrite =>
    exact fun log' hlog' => Option.some.inj hlog' ▸ (h _ hlog).write hwrite
  | rollFile hposition hend hlog hlarge => exact fun log hlog => Option.some.inj hlog ▸ hnew
  | append _ => exact h
  | stop _ => exact h
  | enter _ _ => exact h
  | wait _ => exact h
  | swap _ => exact h
  | keepFile _ _ _ _ => exact h
  | recycle _ => exact h

/-- What is known of the files when blocks with their times have been written. -/
structure Lagging (written : List (ℤ × Bytes)) (s : FileLogging) : Prop where
  sound : s.Sound
  flushed : Flushed written s
  recent : ∀ log ∈ s.log, log.Recent

/-- In every run, what a crash would lose of the blocks that were written is the last ones of them, none of
them in a closed file, and each written no later than `kFlushInterval` seconds after the open file was
flushed. As long as nothing more is stored, no call of `Write` flushes them. -/
theorem flushed_run {actions : List FileAction} {s : FileLogging} (hrun : run step started actions = some s) :
    Flushed (trace step blockWritten started actions) s ∧
      ∀ log ∈ s.log, ∀ results now fuel log', log.write [] results now fuel = some log' → log' = log := by
  have hstep (written : List (ℤ × Bytes)) (s : FileLogging) (action : FileAction) (s' : FileLogging)
      (h : Lagging written s) (hstep : s.step action = some s') :
        Lagging (written ++ s.blockWritten action) s' := by
    have hcase := fileStep_cases h.sound hstep
    exact ⟨sound_step h.sound hstep, flushed_step h.flushed h.sound.opened hcase, recent_step h.recent hcase⟩
  have hstart : Lagging [] started :=
    ⟨sound_started, ⟨[], [], [], rfl, rfl, rfl, fun _ hlog => by cases hlog⟩, fun _ hlog => by cases hlog⟩
  have hlagging := run_invariant_trace hstep hstart hrun
  exact ⟨hlagging.flushed, fun log hlog results now fuel log' => (hlagging.recent log hlog).write_nil⟩

/-- A block is written and flushed, another one comes three seconds later, and then only empty ones. -/
def lateActions : List FileAction :=
  [.thread (fun _ => 0) 0 0, .append [7], .thread (fun _ => 0) 0 0, .thread (fun _ => 0) 0 0,
    .thread (fun _ => 0) 0 0,
    .thread (fun _ => 1) 100 2, .append [8, 9], .thread (fun _ => 0) 0 0, .thread (fun _ => 0) 0 0,
    .thread (fun _ => 0) 0 0, .thread (fun _ => 0) 0 0, .thread (fun _ => 0) 0 0, .thread (fun _ => 2) 103 2,
    .thread (fun _ => 0) 0 0, .thread (fun _ => 0) 0 0]

/-- The second block stays in the stream. -/
theorem flushed_run_late : ∃ s, run step started lateActions = some s ∧ s.log = some ⟨[7, 8, 9], 1, 3, 103, 100⟩ ∧
    ∀ results now fuel log', LogFile.write ⟨[7, 8, 9], 1, 3, 103, 100⟩ [] results now fuel = some log' →
      log' = ⟨[7, 8, 9], 1, 3, 103, 100⟩ := by
  have hrun : run step started lateActions = some _ := rfl
  exact ⟨_, hrun, rfl, (flushed_run hrun).2 _ rfl⟩

end FileLogging

end WebServer.Log
