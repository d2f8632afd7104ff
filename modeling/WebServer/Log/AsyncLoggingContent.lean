import WebServer.Foundation.Fallible
import WebServer.Foundation.Ledger
import WebServer.Log.AsyncLogging

/-!
# No byte changes its place in the asynchronous logger

The swap, the writing of a batch and the recycling of its buffers move bytes between the
file, the taken buffers, the pending buffers and `current_` without changing their order,
because every spare buffer is empty when it is put in place. An `Append` call adds its
record at the end when the record fits into `current_`. When it does not fit, the call
rolls over to another buffer and returns without storing the record.
-/

namespace WebServer.Log

open WebServer.Foundation
open WebServer.Util (Bytes)

/-- The thread holds a batch it took from the other threads. -/
def ThreadPosition.ownsBatch : ThreadPosition → Bool
  | .writing _ => true
  | .recycling => true
  | _ => false

/-- The thread is on its way to the next swap. -/
def ThreadPosition.beforeSwap : ThreadPosition → Bool
  | .loopHead => true
  | .locking => true
  | .waiting => true
  | _ => false

namespace AsyncLogging

/-- The facts that tie the pointers to the program position of the thread. -/
structure Consistent (s : AsyncLogging) : Prop where
  current_some : s.current.isSome
  next_empty : BufferPtr.bytes s.next = []
  newbufferCurrent_empty : BufferPtr.bytes s.newbufferCurrent = []
  newbufferNext_empty : BufferPtr.bytes s.newbufferNext = []
  newbufferCurrent_some : s.position.beforeSwap → s.newbufferCurrent.isSome
  buffers_nil : ¬ s.position.ownsBatch → s.buffers = []
  buffersToWrite_some : ∀ pointer ∈ s.buffersToWrite, pointer.isSome
  buffers_some : ∀ pointer ∈ s.buffers, pointer.isSome

/-- The logger starts consistent. -/
theorem consistent_started : started.Consistent := by
  constructor <;> simp [started, BufferPtr.bytes, ThreadPosition.beforeSwap]

/-- The replacement of a full buffer is present, and empty when `next_` was. -/
theorem replacement_spec {next : BufferPtr} (h : BufferPtr.bytes next = []) :
    (replacement next).isSome ∧ BufferPtr.bytes (replacement next) = [] := by
  cases next with
  | none => exact ⟨rfl, rfl⟩
  | some next => exact ⟨rfl, h⟩

/-- `Append` keeps the pointers consistent. -/
theorem Consistent.append {s : AsyncLogging} (h : s.Consistent) (record : Bytes) :
    (s.append record).Consistent := by
  obtain ⟨current, hcurrent⟩ := Option.isSome_iff_exists.mp h.current_some
  rw [AsyncLogging.append]
  simp only [hcurrent]
  split
  · exact { h with current_some := rfl }
  · refine { h with
      current_some := (replacement_spec h.next_empty).1, next_empty := rfl, buffersToWrite_some := ?_ }
    intro pointer hpointer
    rcases List.mem_append.mp hpointer with hold | hnew
    · exact h.buffersToWrite_some pointer hold
    · exact List.mem_singleton.mp hnew ▸ h.current_some

/-- Creating the spares keeps the pointers consistent. -/
theorem Consistent.start {s : AsyncLogging} (h : s.Consistent) : s.start.Consistent where
  current_some := h.current_some
  next_empty := h.next_empty
  newbufferCurrent_empty := rfl
  newbufferNext_empty := rfl
  newbufferCurrent_some _ := rfl
  buffers_nil _ := rfl
  buffersToWrite_some := h.buffersToWrite_some
  buffers_some := by simp [AsyncLogging.start]

/-- The swap hands the pending buffers and `current_` to the thread, all of them present. -/
theorem Consistent.swap {s : AsyncLogging} (h : s.Consistent) (hposition : s.position.beforeSwap) :
    s.swap.Consistent := by
  obtain ⟨current, hcurrent⟩ := Option.isSome_iff_exists.mp h.current_some
  rw [AsyncLogging.swap]
  simp only [hcurrent]
  have hnext := h.next_empty
  constructor
  · exact h.newbufferCurrent_some hposition
  · cases hcase : s.next with
    | none => exact h.newbufferNext_empty
    | some next =>
      rw [hcase] at hnext
      exact hnext
  · rfl
  · cases s.next with
    | none => rfl
    | some next => exact h.newbufferNext_empty
  · intro hbefore
    cases hbefore
  · intro hbatch
    exact absurd rfl hbatch
  · exact h.buffers_some
  · intro pointer hpointer
    rcases List.mem_append.mp hpointer with hold | hnew
    · exact h.buffersToWrite_some pointer hold
    · rw [List.mem_singleton.mp hnew]
      rfl

/-- A pointer taken from the back of the batch is present and its buffer is cleared. -/
theorem takeBack_ok {buffers rest : List BufferPtr} {pointer : BufferPtr}
    (h : takeBack buffers = .ok (pointer, rest)) : pointer.isSome ∧ BufferPtr.bytes pointer = [] := by
  rw [takeBack] at h
  split at h
  · cases h
  · cases h
  · obtain ⟨rfl, -⟩ := Prod.mk.inj (Except.ok.inj h)
    exact ⟨rfl, rfl⟩

/-- A refilling branch leaves the pointer present and empty if it was, or if it was replaced. -/
theorem takeBackIf_ok {missing : Bool} {newbufferCurrent pointer : BufferPtr}
    {buffers rest : List BufferPtr} (hsome : missing = false → newbufferCurrent.isSome)
    (hempty : BufferPtr.bytes newbufferCurrent = [])
    (h : takeBackIf missing newbufferCurrent buffers = .ok (pointer, rest)) :
    pointer.isSome ∧ BufferPtr.bytes pointer = [] := by
  cases missing with
  | true => exact takeBack_ok h
  | false =>
    obtain ⟨rfl, -⟩ := Prod.mk.inj (Except.ok.inj h)
    exact ⟨hsome rfl, hempty⟩

/-- The refilled spare is present and empty. -/
theorem refill_ok {newbufferCurrent newbufferNext pointer : BufferPtr} {buffers : List BufferPtr}
    (hempty : BufferPtr.bytes newbufferCurrent = [])
    (h : refill newbufferCurrent newbufferNext buffers = .ok pointer) :
    pointer.isSome ∧ BufferPtr.bytes pointer = [] := by
  obtain ⟨⟨first, rest⟩, hfirst, h⟩ := except_bind_eq_ok.mp h
  obtain ⟨⟨second, rest'⟩, hsecond, h⟩ := except_bind_eq_ok.mp h
  obtain rfl := Except.ok.inj h
  have hspare : first.isSome ∧ BufferPtr.bytes first = [] := by
    apply takeBackIf_ok _ hempty hfirst
    intro hpresent
    cases newbufferCurrent with
    | none => cases hpresent
    | some current => rfl
  exact takeBackIf_ok (fun _ => hspare.1) hspare.2 hsecond

/-- Recycling keeps the pointers consistent, also when it ends in a fault. -/
theorem Consistent.recycle {s : AsyncLogging} (h : s.Consistent) : s.recycle.Consistent := by
  rw [AsyncLogging.recycle]
  cases hrefill : refill s.newbufferCurrent s.newbufferNext s.buffers with
  | error fault => exact { h with }
  | ok pointer =>
    obtain ⟨hsome, hempty⟩ := refill_ok h.newbufferCurrent_empty hrefill
    exact { h with
      newbufferCurrent_empty := hempty
      newbufferCurrent_some := fun _ => hsome
      buffers_nil := fun _ => rfl
      buffers_some := by simp }

/-- A step of the thread keeps the pointers consistent. -/
theorem Consistent.threadStep {s s' : AsyncLogging} (h : s.Consistent) (hstep : ThreadStep s s') :
    s'.Consistent := by
  cases hstep with
  | start hposition => exact h.start
  | enter hposition =>
    exact { h with
      newbufferCurrent_some := fun _ => h.newbufferCurrent_some (hposition ▸ rfl)
      buffers_nil := fun _ => h.buffers_nil (hposition ▸ Bool.false_ne_true) }
  | wait hposition hempty =>
    exact { h with
      newbufferCurrent_some := fun _ => h.newbufferCurrent_some (hposition ▸ rfl)
      buffers_nil := fun _ => h.buffers_nil (hposition ▸ Bool.false_ne_true) }
  | swap hposition =>
    apply h.swap
    rcases hposition with ⟨hposition, -⟩ | hposition
    · rw [hposition]
      rfl
    · rw [hposition]
      rfl
  | write index buffer hposition hbuffer =>
    cases buffer with
    | none => exact { h with }
    | some buffer =>
      exact { h with
        newbufferCurrent_some := fun hbefore => absurd hbefore Bool.false_ne_true
        buffers_nil := fun hbatch => absurd rfl hbatch }
  | rollFile index hposition hend =>
    exact { h with
      newbufferCurrent_some := fun hbefore => absurd hbefore Bool.false_ne_true
      buffers_nil := fun hbatch => absurd rfl hbatch }
  | recycle hposition => exact h.recycle

/-- Every step of the logger keeps the pointers consistent. -/
theorem consistent_step (s : AsyncLogging) (action : AsyncAction) (s' : AsyncLogging)
    (h : s.Consistent) (hstep : s.step action = some s') : s'.Consistent := by
  obtain ⟨-, ⟨record, rfl, rfl⟩ | ⟨rfl, hthread⟩ | ⟨rfl, hstop⟩⟩ := step_cases hstep
  · exact h.append record
  · exact h.threadStep hthread
  · rw [stopStep_eq hstop]
    exact { h with }

/-- The content held by a pointer list grows by the bytes of the pointer added behind it. -/
theorem flatMap_bytes_concat (pointers : List BufferPtr) (pointer : BufferPtr) :
    (pointers ++ [pointer]).flatMap BufferPtr.bytes =
      pointers.flatMap BufferPtr.bytes ++ BufferPtr.bytes pointer := by
  rw [List.flatMap_append, List.flatMap_singleton]

/-- A record that fits into `current_` is stored behind everything else. -/
theorem content_append_of_fits {s : AsyncLogging} {current : FixedBuffer largeSize}
    (hcurrent : s.current = some current) {record : Bytes}
    (hfits : record.length ≤ current.writablebytes) :
    (s.append record).content = s.content ++ record := by
  have happend : s.append record = { s with current := some (current.append record) } := by
    rw [append]
    simp only [hcurrent]
    exact if_pos hfits
  rw [happend]
  change s.written ++ s.unwritten.flatMap BufferPtr.bytes ++ s.buffersToWrite.flatMap BufferPtr.bytes ++
    (current.append record).data = _
  rw [FixedBuffer.data_append hfits, content, hcurrent, ← List.append_assoc]
  rfl

/-- Rolling over moves the bytes of `current_` behind the pending ones and stores nothing new. -/
theorem content_rollOver {s : AsyncLogging} (h : s.Consistent) : s.rollOver.content = s.content := by
  change s.written ++ s.unwritten.flatMap BufferPtr.bytes ++
    (s.buffersToWrite ++ [s.current]).flatMap BufferPtr.bytes ++ BufferPtr.bytes (replacement s.next) = _
  rw [flatMap_bytes_concat, (replacement_spec h.next_empty).2, List.append_nil, ← List.append_assoc]
  rfl

/-- A record that does not fit leaves the content as it was: it is stored nowhere. -/
theorem content_append_of_not_fits {s : AsyncLogging} (h : s.Consistent)
    {current : FixedBuffer largeSize} (hcurrent : s.current = some current) {record : Bytes}
    (hfits : ¬ record.length ≤ current.writablebytes) : (s.append record).content = s.content := by
  rw [append]
  simp only [hcurrent]
  rw [if_neg hfits, content_rollOver h]

/-- Outside a batch nothing is waiting to be written by the thread. -/
theorem unwritten_eq_nil {s : AsyncLogging} (h : ¬ s.position.ownsBatch) : s.unwritten = [] := by
  rw [unwritten]
  cases hposition : s.position with
  | writing index =>
    rw [hposition] at h
    exact absurd rfl h
  | _ => rfl

/-- While the batch is written, the buffers from the current index on are waiting. -/
theorem unwritten_writing {s : AsyncLogging} {index : ℕ} (h : s.position = .writing index) :
    s.unwritten = s.buffers.drop index := by
  rw [unwritten, h]

/-- The swap passes the pending bytes on in order; the new `current_` is empty. -/
theorem content_swap {s : AsyncLogging} (h : s.Consistent) (hposition : ¬ s.position.ownsBatch) :
    s.swap.content = s.content := by
  obtain ⟨current, hcurrent⟩ := Option.isSome_iff_exists.mp h.current_some
  have hunwritten := unwritten_eq_nil hposition
  rw [swap]
  simp only [hcurrent]
  rw [content, content, hunwritten, h.newbufferCurrent_empty, h.buffers_nil hposition, hcurrent]
  simp only [unwritten, List.drop_zero, flatMap_bytes_concat, List.flatMap_nil, List.append_nil,
    List.append_assoc]

/-- Writing one buffer moves its bytes from the batch to the file. -/
theorem content_write {s : AsyncLogging} {index : ℕ} {buffer : BufferPtr}
    (hposition : s.position = .writing index) (hbuffer : s.buffers[index]? = some buffer) :
    (s.write index buffer).content = s.content := by
  cases buffer with
  | none => rfl
  | some buffer =>
    obtain ⟨hindex, hget⟩ := List.getElem?_eq_some_iff.mp hbuffer
    have hdrop : s.unwritten = some buffer :: s.buffers.drop (index + 1) := by
      rw [unwritten_writing hposition, List.drop_eq_getElem_cons hindex, hget]
    rw [content, content, hdrop]
    simp only [write, unwritten, List.flatMap_cons, BufferPtr.bytes, List.append_assoc]

/-- A step of the thread moves bytes but neither adds, drops nor reorders any. -/
theorem content_threadStep {s s' : AsyncLogging} (h : s.Consistent) (hstep : ThreadStep s s') :
    s'.content = s.content := by
  cases hstep with
  | start hposition => simp only [content, unwritten, start, hposition]
  | enter hposition =>
    cases hrunning : s.running with
    | false => simp [content, unwritten, hposition]
    | true => simp [content, unwritten, hposition]
  | wait hposition hempty => simp only [content, unwritten, hposition]
  | swap hposition =>
    apply content_swap h
    rcases hposition with ⟨hposition, -⟩ | hposition
    · rw [hposition]
      exact Bool.false_ne_true
    · rw [hposition]
      exact Bool.false_ne_true
  | write index buffer hposition hbuffer => exact content_write hposition hbuffer
  | rollFile index hposition hend =>
    have hdrop : s.unwritten = [] := by
      rw [unwritten_writing hposition]
      exact List.drop_eq_nil_of_le (List.getElem?_eq_none_iff.mp hend)
    rw [content, content, hdrop]
    rfl
  | recycle hposition =>
    rw [recycle]
    cases refill s.newbufferCurrent s.newbufferNext s.buffers with
    | error fault => rfl
    | ok pointer => simp only [content, unwritten, hposition]

/-- The record of the action, if it is an `Append` call, fits into `current_`. -/
def Fits (s : AsyncLogging) (action : AsyncAction) : Prop :=
  ∀ current, s.current = some current → action.record.length ≤ current.writablebytes

/-- The account of the records passed to `Append`. -/
def appendLedger : Ledger step UInt8 where
  held := content
  offered := AsyncAction.record
  admits _ _ := True
  keeps := Fits
  invariant := Consistent
  invariant_step s action s' h _ := consistent_step s action s' h
  held_of_keeps s action s' h _ hstep hfits := by
    obtain ⟨-, ⟨record, rfl, rfl⟩ | ⟨rfl, hthread⟩ | ⟨rfl, hstop⟩⟩ := step_cases hstep
    · obtain ⟨current, hcurrent⟩ := Option.isSome_iff_exists.mp h.current_some
      exact content_append_of_fits hcurrent (hfits current hcurrent)
    · exact (content_threadStep h hthread).trans (List.append_nil _).symm
    · rw [stopStep_eq hstop]
      exact (List.append_nil _).symm
  held_of_drops s action s' h _ hstep hfits := by
    obtain ⟨current, hcurrent⟩ := Option.isSome_iff_exists.mp h.current_some
    have hlong : ¬ action.record.length ≤ current.writablebytes := by
      intro hshort
      apply hfits
      intro other hother
      rw [hcurrent] at hother
      exact Option.some.inj hother ▸ hshort
    obtain ⟨-, ⟨record, rfl, rfl⟩ | ⟨rfl, -⟩ | ⟨rfl, -⟩⟩ := step_cases hstep
    · refine ⟨content_append_of_not_fits h hcurrent hlong, ?_⟩
      rintro hnil
      rw [hnil] at hlong
      exact hlong (Nat.zero_le _)
    · exact absurd (Nat.zero_le _) hlong
    · exact absurd (Nat.zero_le _) hlong

/-- The records passed to `Append` along the actions, in lock order. -/
def appended (actions : List AsyncAction) : Bytes := actions.flatMap AsyncAction.record

/-- At every point of a run the logger has in hand exactly what was appended, in lock order,
if and only if every record so far fitted into the `current_` it met. -/
theorem content_eq_appended_iff {actions : List AsyncAction} {s : AsyncLogging}
    (hrun : run step started actions = some s) :
    s.content = appended actions ↔ Meets step Fits started actions :=
  appendLedger.held_eq_iff consistent_started (meets_of_forall_mem (fun _ _ _ => trivial) _) hrun

/-- A record of the largest size `LogStream` produces. -/
def longestRecord : Bytes := List.replicate smallSize 0

/-- Up to `largeSize` bytes, records of the largest size all go into the first buffer. -/
theorem run_longestRecords (count : ℕ) (hcount : count * smallSize ≤ largeSize) :
    ∃ current : FixedBuffer largeSize, current.len = count * smallSize ∧
      run step started (List.replicate count (.append longestRecord)) =
        some { started with current := some current } := by
  induction count with
  | zero => exact ⟨.new, by simp [FixedBuffer.len], rfl⟩
  | succ count ih =>
    have hsize : longestRecord.length = smallSize := List.length_replicate
    have hsucc : (count + 1) * smallSize = count * smallSize + smallSize := Nat.succ_mul count smallSize
    obtain ⟨current, hlen, hrun⟩ := ih (by omega)
    have hfits : longestRecord.length ≤ current.writablebytes := by
      have htotal := current.len_add_writablebytes
      omega
    refine ⟨current.append longestRecord, ?_, ?_⟩
    · rw [FixedBuffer.len, FixedBuffer.data_append hfits, List.length_append, hsize, hsucc, ← hlen]
      rfl
    · rw [List.replicate_succ']
      apply run_snoc_eq_some.mpr
      refine ⟨_, hrun, ?_⟩
      change some (append { started with current := some current } longestRecord) = _
      simp only [append]
      rw [if_pos hfits]

/-- Fill `current_` with records of the largest size and append one more byte. -/
def rollOverActions : List AsyncAction :=
  List.replicate 1000 (.append longestRecord) ++ [.append [0]]

/-- The record that fills the last byte leaves no room, so the next one rolls over. -/
theorem run_rollOverActions : ∃ current : FixedBuffer largeSize, current.len = largeSize ∧
    run step started rollOverActions = some (rollOver { started with current := some current }) := by
  have hfull : 1000 * smallSize = largeSize := rfl
  obtain ⟨current, hlen, hrun⟩ := run_longestRecords 1000 hfull.le
  refine ⟨current, hlen.trans hfull, run_snoc_eq_some.mpr ⟨_, hrun, ?_⟩⟩
  have htotal := current.len_add_writablebytes
  have hfits : ¬ ([0] : Bytes).length ≤ current.writablebytes := by
    rw [List.length_singleton]
    omega
  change some (append { started with current := some current } [0]) = _
  simp only [append]
  rw [if_neg hfits]

/-- A record that fits is in hand after its `Append` call. -/
theorem content_eq_appended_short : ∃ s, run step started [.thread, .append [7], .thread] = some s ∧
    s.content = [7] ∧ Meets step Fits started [.thread, .append [7], .thread] :=
  ⟨_, rfl, rfl, (content_eq_appended_iff rfl).mp rfl⟩

/-- The record that meets a full `current_` is lost, although no record is longer than
`LogStream` can make it. -/
theorem content_ne_appended_rollOver : (∀ action ∈ rollOverActions, action.record.length ≤ smallSize) ∧
    ∃ s, run step started rollOverActions = some s ∧ s.content ≠ appended rollOverActions := by
  constructor
  · intro action haction
    rcases List.mem_append.mp haction with hfill | hlast
    · rw [List.eq_of_mem_replicate hfill]
      exact List.length_replicate.le
    · rw [List.mem_singleton.mp hlast]
      exact Nat.succ_le_succ (Nat.zero_le _)
  · obtain ⟨current, hlen, hrun⟩ := run_rollOverActions
    refine ⟨_, hrun, fun heq => ?_⟩
    have hheld : (rollOver { started with current := some current }).content = current.data := by
      simp [content, rollOver, unwritten, started, BufferPtr.bytes, replacement]
    have hoffered : (appended rollOverActions).length = largeSize + 1 := by
      rw [appended, rollOverActions, List.flatMap_append, List.length_append, List.length_flatMap,
        List.map_replicate, List.sum_replicate_nat, AsyncAction.record, longestRecord,
        List.length_replicate, List.flatMap_singleton, AsyncAction.record, List.length_singleton, smallSize,
        largeSize]
    rw [← heq, hheld] at hoffered
    change current.len = _ at hoffered
    omega

end AsyncLogging

end WebServer.Log
