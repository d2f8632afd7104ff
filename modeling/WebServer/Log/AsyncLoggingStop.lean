import WebServer.Log.AsyncLoggingContent

/-!
# What is in the file when the asynchronous logger has stopped

`ThreadFunc` takes the stored records at its swap, which comes behind the test of `running_`
at the head of the loop. A call of `Stop` that finds the thread between this test and the
swap is answered with one more swap, so everything stored before the call gets written. At
any other position the thread finishes the batch it has in hand and leaves the loop, and
what was stored since its last swap stays in memory.
-/

namespace WebServer.Log

open WebServer.Foundation
open WebServer.Util (Bytes)

/-- The thread has tested `running_` and has not swapped since. -/
def ThreadPosition.swapsNext : ThreadPosition → Bool
  | .locking => true
  | .waiting => true
  | _ => false

namespace AsyncLogging

/-- What is in `buffers_to_write_` and `current_`. -/
def stored (s : AsyncLogging) : Bytes := s.buffersToWrite.flatMap BufferPtr.bytes ++ BufferPtr.bytes s.current

/-- What is in the file or in the batch that is being written to it. -/
def taken (s : AsyncLogging) : Bytes := s.written ++ s.unwritten.flatMap BufferPtr.bytes

/-- Everything in hand is taken or stored. -/
theorem content_eq_taken (s : AsyncLogging) : s.content = s.taken ++ s.stored := by
  rw [content, taken, stored, List.append_assoc]

/-- A thread that swaps next owns no batch. -/
theorem not_ownsBatch_of_swapsNext {position : ThreadPosition} (h : position.swapsNext) :
    ¬ position.ownsBatch := by
  cases position with
  | locking => exact Bool.false_ne_true
  | waiting => exact Bool.false_ne_true
  | _ => exact absurd h Bool.false_ne_true

/-- When the thread has returned, everything taken is in the file. -/
theorem taken_returned {s : AsyncLogging} (h : s.position = .returned) : s.taken = s.written := by
  simp [taken, unwritten, h]

/-- `Append` concerns neither the thread nor what it has taken. -/
theorem append_taken (s : AsyncLogging) (record : Bytes) :
    (s.append record).taken = s.taken ∧ (s.append record).position = s.position ∧
      (s.append record).running = s.running := by
  rw [append]
  split
  · exact ⟨rfl, rfl, rfl⟩
  · split
    · exact ⟨rfl, rfl, rfl⟩
    · exact ⟨rfl, rfl, rfl⟩

/-- `Append` keeps everything in hand in front of what it may add. -/
theorem content_prefix_append {s : AsyncLogging} (h : s.Consistent) (record : Bytes) :
    s.content <+: (s.append record).content := by
  obtain ⟨current, hcurrent⟩ := Option.isSome_iff_exists.mp h.current_some
  by_cases hfits : record.length ≤ current.writablebytes
  · rw [content_append_of_fits hcurrent hfits]
    exact List.prefix_append _ _
  · rw [content_append_of_not_fits h hcurrent hfits]

/-- The swap takes everything. -/
theorem taken_swap {s : AsyncLogging} (h : s.Consistent) (hposition : s.position.swapsNext) :
    s.swap.taken = s.content := by
  have hbatch := not_ownsBatch_of_swapsNext hposition
  obtain ⟨current, hcurrent⟩ := Option.isSome_iff_exists.mp h.current_some
  rw [content, unwritten_eq_nil hbatch, swap]
  simp only [hcurrent, taken, unwritten, List.drop_zero, flatMap_bytes_concat, List.flatMap_nil, List.append_nil,
    List.append_assoc]

/-- Only the swap reaches what other threads stored. -/
theorem stored_threadStep {s s' : AsyncLogging} (hposition : ¬ s.position.swapsNext) (hstep : ThreadStep s s') :
    s'.stored = s.stored ∧ s'.running = s.running := by
  cases hstep with
  | start h => exact ⟨rfl, rfl⟩
  | enter h => exact ⟨rfl, rfl⟩
  | wait h hempty => exact ⟨rfl, rfl⟩
  | swap h =>
    rcases h with ⟨h, -⟩ | h
    · exact absurd (h ▸ rfl) hposition
    · exact absurd (h ▸ rfl) hposition
  | write index buffer h hbuffer => cases buffer <;> exact ⟨rfl, rfl⟩
  | rollFile index h hend => exact ⟨rfl, rfl⟩
  | recycle h =>
    rw [recycle]
    split
    · exact ⟨rfl, rfl⟩
    · exact ⟨rfl, rfl⟩

/-- Without a swap nothing is taken and nothing taken is lost. -/
theorem taken_threadStep {s s' : AsyncLogging} (h : s.Consistent) (hposition : ¬ s.position.swapsNext)
    (hstep : ThreadStep s s') : s'.taken = s.taken := by
  have hcontent := content_threadStep h hstep
  rw [content_eq_taken, content_eq_taken, (stored_threadStep hposition hstep).1] at hcontent
  exact List.append_cancel_right hcontent

/-- A thread on its way to the swap waits or swaps. -/
theorem swapsNext_threadStep {s s' : AsyncLogging} (h : s.Consistent) (hposition : s.position.swapsNext)
    (hstep : ThreadStep s s') : (s'.position.swapsNext ∧ s'.content = s.content) ∨ s'.taken = s.content := by
  cases hstep with
  | wait hlocking hempty => exact Or.inl ⟨rfl, content_threadStep h (.wait hlocking hempty)⟩
  | swap => exact Or.inr (taken_swap h hposition)
  | start hother => simp [hother, ThreadPosition.swapsNext] at hposition
  | enter hother => simp [hother, ThreadPosition.swapsNext] at hposition
  | write index buffer hother => simp [hother, ThreadPosition.swapsNext] at hposition
  | rollFile index hother => simp [hother, ThreadPosition.swapsNext] at hposition
  | recycle hother => simp [hother, ThreadPosition.swapsNext] at hposition

/-- Once `running_` is cleared, a thread outside the critical section does not enter it again. -/
theorem not_swapsNext_threadStep {s s' : AsyncLogging} (hrunning : s.running = false)
    (hposition : ¬ s.position.swapsNext) (hstep : ThreadStep s s') : ¬ s'.position.swapsNext := by
  cases hstep with
  | start h => exact Bool.false_ne_true
  | enter h => simp [hrunning, ThreadPosition.swapsNext]
  | wait h hempty => exact absurd (h ▸ rfl) hposition
  | swap h =>
    rcases h with ⟨h, -⟩ | h
    · exact absurd (h ▸ rfl) hposition
    · exact absurd (h ▸ rfl) hposition
  | write index buffer h hbuffer =>
    cases buffer with
    | none => exact hposition
    | some buffer => exact Bool.false_ne_true
  | rollFile index h hend => exact Bool.false_ne_true
  | recycle h =>
    rw [recycle]
    split
    · exact hposition
    · exact Bool.false_ne_true

/-- The thread will not swap again, and has taken exactly these bytes. -/
structure Finishing (bytes : Bytes) (s : AsyncLogging) : Prop where
  consistent : s.Consistent
  stopped : s.running = false
  position : ¬ s.position.swapsNext
  taken : s.taken = bytes

/-- A thread that will not swap again takes nothing more. -/
theorem finishing_step {bytes : Bytes} (s : AsyncLogging) (action : AsyncAction) (s' : AsyncLogging)
    (h : Finishing bytes s) (hstep : s.step action = some s') : Finishing bytes s' := by
  have hconsistent := consistent_step s action s' h.consistent hstep
  obtain ⟨-, ⟨record, rfl, rfl⟩ | ⟨rfl, hthread⟩ | ⟨rfl, hstop⟩⟩ := step_cases hstep
  · obtain ⟨htaken, hposition, hrunning⟩ := s.append_taken record
    exact ⟨hconsistent, hrunning ▸ h.stopped, hposition ▸ h.position, htaken.trans h.taken⟩
  · exact ⟨hconsistent, (stored_threadStep h.position hthread).2.trans h.stopped,
      not_swapsNext_threadStep h.stopped h.position hthread,
      (taken_threadStep h.consistent h.position hthread).trans h.taken⟩
  · have hsame := stopStep_eq hstop
    refine ⟨hconsistent, ?_, hsame ▸ h.position, (congrArg taken hsame).trans h.taken⟩
    rw [stopStep] at hstop
    split at hstop
    · exact Option.some.inj hstop ▸ rfl
    · exact Option.some.inj hstop ▸ h.stopped
    · split at hstop
      · exact Option.some.inj hstop ▸ h.stopped
      · cases hstop
    · cases hstop

/-- These bytes are on their way to the file: taken, or to be taken by the swap that comes next. -/
structure Passing (bytes : Bytes) (s : AsyncLogging) : Prop where
  consistent : s.Consistent
  passes : (s.position.swapsNext ∧ bytes <+: s.content) ∨ bytes <+: s.taken

/-- What is on its way to the file stays on it. -/
theorem passing_step {bytes : Bytes} (s : AsyncLogging) (action : AsyncAction) (s' : AsyncLogging)
    (h : Passing bytes s) (hstep : s.step action = some s') : Passing bytes s' := by
  refine ⟨consistent_step s action s' h.consistent hstep, ?_⟩
  obtain ⟨-, ⟨record, rfl, rfl⟩ | ⟨rfl, hthread⟩ | ⟨rfl, hstop⟩⟩ := step_cases hstep
  · obtain ⟨htaken, hposition, -⟩ := s.append_taken record
    rw [htaken, hposition]
    exact h.passes.imp_left fun hnext => ⟨hnext.1, hnext.2.trans (content_prefix_append h.consistent record)⟩
  · by_cases hposition : s.position.swapsNext
    · have hcontent : bytes <+: s.content := by
        rcases h.passes with hnext | htaken
        · exact hnext.2
        · exact htaken.trans (s.content_eq_taken ▸ List.prefix_append _ _)
      rcases swapsNext_threadStep h.consistent hposition hthread with ⟨hnext, hsame⟩ | hswapped
      · exact Or.inl ⟨hnext, hsame ▸ hcontent⟩
      · exact Or.inr (hswapped ▸ hcontent)
    · have htaken := h.passes.resolve_left fun hnext => hposition hnext.1
      exact Or.inr (taken_threadStep h.consistent hposition hthread ▸ htaken)
  · rw [stopStep_eq hstop]
    exact h.passes

/-- When the thread has returned after a call of `Stop`, everything in hand at the begin of the
call is in the file, in order, if and only if the call found the thread on its way to a swap,
or nothing was stored. -/
theorem written_returned_iff {before after : List AsyncAction} {s t u : AsyncLogging}
    (hbefore : run step started before = some s) (hbegin : s.stopPosition = .notCalled)
    (hclear : s.step .stop = some t) (hafter : run step t after = some u) (hreturned : u.position = .returned) :
    s.content <+: u.written ↔ s.position.swapsNext ∨ s.stored = [] := by
  have hconsistent := run_invariant consistent_step consistent_started hbefore
  have hcleared : t = { s with running := false, stopPosition := .cleared } := by
    obtain ⟨-, ⟨record, hother, -⟩ | ⟨hother, -⟩ | ⟨-, hstop⟩⟩ := step_cases hclear
    · cases hother
    · cases hother
    · rw [stopStep, hbegin] at hstop
      exact (Option.some.inj hstop).symm
  have hstart : t.Consistent := consistent_step s .stop t hconsistent hclear
  rw [← taken_returned hreturned]
  constructor
  · intro hwritten
    by_cases hposition : s.position.swapsNext
    · exact Or.inl hposition
    · have hfinishing : Finishing s.taken t := by
        subst hcleared
        exact ⟨hstart, rfl, hposition, rfl⟩
      have hlast := (run_invariant finishing_step hfinishing hafter).taken
      have hlength := hwritten.length_le
      rw [hlast, content_eq_taken, List.length_append] at hlength
      exact Or.inr (List.eq_nil_of_length_eq_zero (by omega))
  · intro hcondition
    have hpassing : Passing s.content t := by
      refine ⟨hstart, ?_⟩
      subst hcleared
      rcases hcondition with hposition | hnothing
      · exact Or.inl ⟨hposition, List.prefix_rfl⟩
      · exact Or.inr (by rw [content_eq_taken, hnothing, List.append_nil]; exact List.prefix_rfl)
    have hlast := (run_invariant passing_step hpassing hafter).passes
    exact hlast.resolve_left fun hnext => by simp [hreturned, ThreadPosition.swapsNext] at hnext

/-- A `Stop` that finds the thread waiting gets the stored byte written. -/
theorem written_returned_waiting : ∃ s t u,
    run step started [.append [7], .thread, .thread, .thread] = some s ∧ s.step .stop = some t ∧
      run step t (List.replicate 5 .thread) = some u ∧ u.position = .returned ∧ s.content <+: u.written := by
  have hbefore : run step started [.append [7], .thread, .thread, .thread] = some _ := rfl
  obtain ⟨s, hs⟩ := Option.isSome_iff_exists.mp (congrArg Option.isSome hbefore)
  have hs' := Option.some.inj (hbefore.symm.trans hs)
  have hwaiting : s.position = .waiting ∧ s.stopPosition = .notCalled := by
    subst hs'
    exact ⟨rfl, rfl⟩
  have hlast : ((s.step .stop).bind (run step · (List.replicate 5 .thread))).map position = some .returned := by
    subst hs'
    rfl
  obtain ⟨u, hrun, hreturned⟩ := Option.map_eq_some_iff.mp hlast
  obtain ⟨t, hclear, hafter⟩ := Option.bind_eq_some_iff.mp hrun
  exact ⟨s, t, u, hs, hclear, hafter, hreturned,
    (written_returned_iff hs hwaiting.2 hclear hafter hreturned).mpr (Or.inl (hwaiting.1 ▸ rfl))⟩

/-- A byte stored while the thread writes an earlier batch is lost by `Stop`. -/
theorem not_written_returned_writing : ∃ s t u,
    run step started [.thread, .thread, .thread, .thread, .append [7]] = some s ∧ s.stopPosition = .notCalled ∧
      s.step .stop = some t ∧ run step t (List.replicate 4 .thread) = some u ∧ u.position = .returned ∧
      s.stored = [7] ∧ ¬ s.content <+: u.written := by
  have hbefore : run step started [.thread, .thread, .thread, .thread, .append [7]] = some _ := rfl
  obtain ⟨s, hs⟩ := Option.isSome_iff_exists.mp (congrArg Option.isSome hbefore)
  have hs' := Option.some.inj (hbefore.symm.trans hs)
  have hwriting : s.stopPosition = .notCalled ∧ s.stored = [7] ∧ s.content = [7] := by
    subst hs'
    exact ⟨rfl, rfl, rfl⟩
  have hlast : ((s.step .stop).bind (run step · (List.replicate 4 .thread))).map
    (fun u => (u.position, u.written)) =
      some (.returned, []) := by
    subst hs'
    rfl
  obtain ⟨u, hrun, hu⟩ := Option.map_eq_some_iff.mp hlast
  obtain ⟨t, hclear, hafter⟩ := Option.bind_eq_some_iff.mp hrun
  obtain ⟨hreturned, hwritten⟩ := Prod.mk.inj hu
  refine ⟨s, t, u, hs, hwriting.1, hclear, hafter, hreturned, hwriting.2.1, ?_⟩
  rw [hwriting.2.2, hwritten]
  decide

end AsyncLogging

end WebServer.Log
