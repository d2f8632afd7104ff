import Mathlib.Algebra.BigOperators.Group.Finset.Piecewise
import Mathlib.Algebra.Order.BigOperators.Group.Finset
import WebServer.Foundation.Loop
import WebServer.Log.AsyncLogging

/-!
# `LogFile::Write`

`Write` calls `fwrite_unlocked` until the whole block has been accepted. How much a call accepts is decided
by the C library: `results` gives the count of every call, of which no more than was requested is used.
A call that accepts nothing does not end the loop, so `Write` returns exactly if the counts add up
to the length of the block. It has then done what the asynchronous logger takes it for: one step
that puts the block into the file.
-/

namespace WebServer.Log

open WebServer.Foundation
open WebServer.Util (Bytes ascii)
open Finset (range sum_range_succ)

/-- `kFlushInterval`. -/
def flushInterval : ℤ := 3

/-- The data members of `LogFile`, with the bytes that its stream has accepted and the number of those that
have been flushed. -/
structure LogFile where
  accepted : Bytes
  flushed : ℕ
  writtenBytes : ℕ
  lastWrite : ℤ
  lastFlush : ℤ

namespace LogFile

/-- `Flush()`. -/
def flush (log : LogFile) : LogFile := { log with flushed := log.accepted.length }

/-- The loop of `Write`, over the stream, `pos`, and the number of calls so far. -/
def writeTurn (data : Bytes) (results : ℕ → ℕ) : LogFile × ℕ × ℕ → Option (Turn (LogFile × ℕ × ℕ) LogFile)
  | (log, pos, calls) =>
    if pos ≠ data.length then
      let count := min (results calls) (data.length - pos)
      some (.again ({ log with accepted := log.accepted ++ (data.drop pos).take count }, pos + count, calls + 1))
    else some (.done log)

/-- The end of `Write`, at the given time. -/
def account (log : LogFile) (len : ℕ) (now : ℤ) : LogFile :=
  let log := if len ≠ 0 then { log with lastWrite := now, writtenBytes := log.writtenBytes + len } else log
  if log.lastWrite - log.lastFlush > flushInterval then { log.flush with lastFlush := now } else log

/-- `Write(data, len)`. -/
def write (log : LogFile) (data : Bytes) (results : ℕ → ℕ) (now : ℤ) (fuel : ℕ) : Option LogFile :=
  (loop (writeTurn data results) fuel (log, 0, 0)).map fun log => log.account data.length now

/-- After some calls the stream has accepted a prefix of the block, as long as the counts together. -/
structure Progress (log : LogFile) (data : Bytes) (results : ℕ → ℕ) (log' : LogFile) (pos calls : ℕ) : Prop where
  pos_eq : pos = min data.length (∑ call ∈ range calls, results call)
  log_eq : log' = { log with accepted := log.accepted ++ data.take pos }

variable {log log' : LogFile} {data : Bytes} {results : ℕ → ℕ} {pos calls : ℕ}

/-- A call that is made extends the accepted prefix. -/
theorem Progress.call (h : Progress log data results log' pos calls) :
    Progress log data results
      { log' with accepted := log'.accepted ++ (data.drop pos).take (min (results calls) (data.length - pos)) }
      (pos + min (results calls) (data.length - pos)) (calls + 1) where
  pos_eq := by
    have hpos := h.pos_eq
    rw [sum_range_succ]
    omega
  log_eq := by
    rw [h.log_eq, List.take_add, List.append_assoc]

/-- The calls go on as long as their counts are less than the block. -/
theorem Progress.less (h : Progress log data results log' pos calls) (hpos : pos ≠ data.length) :
    ∑ call ∈ range calls, results call < data.length := by
  have hposeq := h.pos_eq
  omega

/-- The block is complete when the loop ends. -/
theorem Progress.complete (h : Progress log data results log' pos calls) (hpos : pos = data.length) :
    data.length ≤ ∑ call ∈ range calls, results call ∧ log' = { log with accepted := log.accepted ++ data } := by
  have hposeq := h.pos_eq
  have hlog := h.log_eq
  rw [hpos, List.take_length] at hlog
  exact ⟨by omega, hlog⟩

/-- No call has been made. -/
theorem progress_start (log : LogFile) (data : Bytes) (results : ℕ → ℕ) : Progress log data results log 0 0 where
  pos_eq := by simp
  log_eq := by rw [List.take_zero, List.append_nil]

/-- When the counts add up to the block, the loop ends with the whole block accepted. -/
theorem exists_loop_writeTurn (log : LogFile) {total : ℕ} (h : data.length ≤ ∑ call ∈ range total, results call) :
    ∃ log', loop (writeTurn data results) (total + 1) (log, 0, 0) = some log' := by
  have hbody (state : LogFile × ℕ × ℕ) (hstate : Progress log data results state.1 state.2.1 state.2.2) :
      (∃ state', writeTurn data results state = some (.again state') ∧
        Progress log data results state'.1 state'.2.1 state'.2.2 ∧ total - state'.2.2 < total - state.2.2) ∨
      ∃ log', writeTurn data results state = some (.done log') ∧ True := by
    obtain ⟨log₁, pos, calls⟩ := state
    change Progress log data results log₁ pos calls at hstate
    by_cases hpos : pos ≠ data.length
    · have hless := hstate.less hpos
      have hcalls : calls < total := by
        by_contra hall
        have hmore : ∑ call ∈ range total, results call ≤ ∑ call ∈ range calls, results call :=
          Finset.sum_le_sum_of_subset (Finset.range_subset_range.mpr (not_lt.mp hall))
        omega
      exact Or.inl ⟨_, if_pos hpos, hstate.call, by simp only; omega⟩
    · exact Or.inr ⟨log₁, if_neg hpos, trivial⟩
  have hstart : Progress log data results (log, 0, 0).1 (log, 0, 0).2.1 (log, 0, 0).2.2 :=
    progress_start log data results
  obtain ⟨log', hloop, -⟩ :=
    loop_ends (fun state : LogFile × ℕ × ℕ => total - state.2.2) hbody hstart (Nat.lt_succ_self total)
  exact ⟨log', hloop⟩

/-- When the loop has ended, the counts have added up to the block, and the whole block has been accepted. -/
theorem loop_writeTurn_eq {fuel : ℕ} (h : loop (writeTurn data results) fuel (log, 0, 0) = some log') :
    (∃ total, data.length ≤ ∑ call ∈ range total, results call) ∧
      log' = { log with accepted := log.accepted ++ data } := by
  have hagain (state state' : LogFile × ℕ × ℕ) (hstate : Progress log data results state.1 state.2.1 state.2.2)
      (hturn : writeTurn data results state = some (.again state')) :
      Progress log data results state'.1 state'.2.1 state'.2.2 := by
    rw [writeTurn] at hturn
    split_ifs at hturn with hpos
    · cases hturn
      exact hstate.call
    · cases hturn
  have hdone (state : LogFile × ℕ × ℕ) (log₁ : LogFile)
      (hstate : Progress log data results state.1 state.2.1 state.2.2)
      (hturn : writeTurn data results state = some (.done log₁)) :
      (∃ total, data.length ≤ ∑ call ∈ range total, results call) ∧
        log₁ = { log with accepted := log.accepted ++ data } := by
    rw [writeTurn] at hturn
    split_ifs at hturn with hpos
    · cases hturn
    · obtain ⟨htotal, hlog⟩ := hstate.complete (not_not.mp hpos)
      cases hturn
      exact ⟨⟨_, htotal⟩, hlog⟩
  exact loop_ended hagain hdone (progress_start log data results) h

/-- The end of `Write` counts the block and leaves what has been accepted. -/
theorem accepted_account (log : LogFile) (len : ℕ) (now : ℤ) :
    (log.account len now).accepted = log.accepted ∧ (log.account len now).writtenBytes =
      log.writtenBytes + len := by
  by_cases hsome : len ≠ 0
  · simp only [account, if_pos hsome]
    split_ifs
    · exact ⟨rfl, rfl⟩
    · exact ⟨rfl, rfl⟩
  · obtain rfl := not_not.mp hsome
    simp only [account, if_neg hsome]
    split_ifs
    · exact ⟨rfl, rfl⟩
    · exact ⟨rfl, rfl⟩

/-- A call that returns has put the whole block into the file. -/
theorem write_eq {now : ℤ} {fuel : ℕ} (h : log.write data results now fuel = some log') :
    (∃ total, data.length ≤ ∑ call ∈ range total, results call) ∧
      log'.accepted = log.accepted ++ data ∧ log'.writtenBytes = log.writtenBytes + data.length := by
  obtain ⟨log₁, hloop, rfl⟩ := Option.map_eq_some_iff.mp h
  obtain ⟨htotal, rfl⟩ := loop_writeTurn_eq hloop
  exact ⟨htotal, accepted_account _ _ _⟩

/-- A call that returns is the step of the logging thread that writes the buffer. -/
theorem write_step {s : AsyncLogging} {buffer : FixedBuffer largeSize} {now : ℤ} {fuel : ℕ} (index : ℕ)
    (hcount : log.writtenBytes = s.writtenbytes) (h : log.write buffer.data results now fuel = some log') :
    ∃ text, log'.accepted = log.accepted ++ text ∧ (s.write index (some buffer)).written = s.written ++ text ∧
      log'.writtenBytes = (s.write index (some buffer)).writtenbytes := by
  obtain ⟨-, haccepted, hwritten⟩ := write_eq h
  exact ⟨buffer.data, haccepted, rfl, hwritten.trans (congrArg (· + buffer.data.length) hcount)⟩

/-- The call returns, the bytes it got accepted are a prefix of the block, and they are counted. -/
def WritesOnce (log : LogFile) (data : Bytes) (results : ℕ → ℕ) (now : ℤ) : Prop :=
  ∃ fuel log' text, log.write data results now fuel = some log' ∧ text <+: data ∧
    log'.accepted = log.accepted ++ text ∧ log'.writtenBytes = log.writtenBytes + text.length

/-- `Write` returns and writes the block once if and only if the counts of some calls add up to the block. -/
theorem writesOnce_iff (log : LogFile) (data : Bytes) (results : ℕ → ℕ) (now : ℤ) :
    log.WritesOnce data results now ↔ ∃ total, data.length ≤ ∑ call ∈ range total, results call := by
  constructor
  · rintro ⟨fuel, log', text, hwrite, -⟩
    exact (write_eq hwrite).1
  · rintro ⟨total, htotal⟩
    obtain ⟨log₁, hloop⟩ := exists_loop_writeTurn log htotal
    have hwrite : log.write data results now (total + 1) = some (log₁.account data.length now) := by
      rw [write, hloop, Option.map_some]
    obtain ⟨-, haccepted, hwritten⟩ := write_eq hwrite
    exact ⟨_, _, data, hwrite, List.prefix_refl data, haccepted, hwritten⟩

/-- The stream accepts three of five bytes and then nothing more, and `Write` does not return. -/
theorem not_writesOnce_full :
    (∀ fuel, write ⟨[], 0, 0, 0, 0⟩ (ascii "abcde") (fun call => if call = 0 then 3 else 0) 10 fuel = none) ∧
      ¬ WritesOnce ⟨[], 0, 0, 0, 0⟩ (ascii "abcde") (fun call => if call = 0 then 3 else 0) 10 := by
  have hnever : ¬ ∃ total, (ascii "abcde").length ≤ ∑ call ∈ range total, if call = 0 then 3 else 0 := by
    rintro ⟨total, htotal⟩
    have hlength : (ascii "abcde").length = 5 := by decide
    rw [Finset.sum_ite_eq', hlength] at htotal
    split_ifs at htotal <;> omega
  constructor
  · intro fuel
    cases hwrite : write ⟨[], 0, 0, 0, 0⟩ (ascii "abcde") (fun call => if call = 0 then 3 else 0) 10 fuel with
    | none => rfl
    | some log' => exact absurd (write_eq hwrite).1 hnever
  · rintro ⟨fuel, log', text, hwrite, -⟩
    exact hnever (write_eq hwrite).1

end LogFile

end WebServer.Log
