import WebServer.Log.RecordEnd

/-!
# A record is a line

A record with room for everything consists of the header, of what was inserted, and of the place of the log
statement, with a single line end behind them. So a file that holds whole records is read back line by
line.
-/

namespace WebServer.Log

open WebServer.Foundation
open WebServer.Util (Bytes ascii wrap wrap_eq)
open WebServer.Http (decimal minus notMem_decimal notMem_digits)

/-- A number is on one line. -/
theorem lineEnd_decimal (n : ℤ) : (10 : UInt8) ∉ decimal n := notMem_decimal (by decide) (by decide) n

/-- A padded number is on one line. -/
theorem lineEnd_padded (width : ℕ) (n : ℤ) : (10 : UInt8) ∉ padded width n := by
  rw [padded, List.mem_append, List.mem_replicate]
  rintro (⟨-, hspace⟩ | hdigit)
  · cases hspace
  · exact lineEnd_decimal n hdigit

/-- A number padded with zeros is on one line. -/
theorem lineEnd_zeroPadded (width : ℕ) (n : ℤ) : (10 : UInt8) ∉ zeroPadded width n := by
  rw [zeroPadded]
  split_ifs
  · rw [List.mem_cons, List.mem_append, List.mem_replicate]
    rintro (hminus | ⟨-, hzero⟩ | hdigit)
    · cases hminus
    · cases hzero
    · exact notMem_digits (by decide) _ hdigit
  · rw [List.mem_append, List.mem_replicate]
    rintro (⟨-, hzero⟩ | hdigit)
    · cases hzero
    · exact lineEnd_decimal n hdigit

/-- A time is on one line. -/
theorem lineEnd_timeText (tm : Tm) : (10 : UInt8) ∉ timeText tm := by
  have hspace : (10 : UInt8) ∉ ascii " " := by decide
  have hcolon : (10 : UInt8) ∉ ascii ":" := by decide
  have hdot : (10 : UInt8) ∉ ascii "." := by decide
  simp only [timeText, List.mem_append, lineEnd_padded, lineEnd_zeroPadded, hspace, hcolon, hdot, or_self,
    not_false_eq_true]

/-- With room for the longest integer behind it, a text, an `int` and a line end are appended in full. -/
theorem FixedBuffer.data_finished {size : ℕ} {b : FixedBuffer size} {place : Bytes} {n : ℤ}
    (hroom : place.length + num2MaxStringLength ≤ b.writablebytes) (hn : -2147483648 ≤ n ∧ n < 2147483648) :
    (((b.append place).appendInteger n).append [10]).data = b.data ++ place ++ decimal n ++ [10] := by
  have hnumber := Http.length_decimal_le hn
  have hreserve : num2MaxStringLength = 48 := rfl
  have hbehind : (b.append place).writablebytes = b.writablebytes - place.length := writablebytes_append _ _
  have hlast : ((b.append place).append (decimal n)).writablebytes =
      (b.append place).writablebytes - (decimal n).length := writablebytes_append _ _
  rw [appendInteger, if_pos (by omega), data_append (by rw [List.length_singleton]; omega), data_append (by omega),
    data_append (by omega)]

/-- A `Logger` keeps the line number it was created with. -/
theorem Logger.line_of_new {localtime : Localtime} {gettid : ThreadId} {call : LogCall} {t t' : ThreadLocals}
    {logger : Logger} (h : new localtime gettid call t = some (logger, t')) : logger.line = call.line := by
  obtain ⟨⟨header, t₁⟩, hheader, h⟩ := Option.bind_eq_some_iff.mp h
  obtain ⟨t₂, -, h⟩ := Option.bind_eq_some_iff.mp h
  obtain ⟨rfl, -⟩ := Prod.mk.inj (Option.some.inj h)
  rw [formattedTime] at hheader
  obtain ⟨t₃, -, hheader⟩ := Option.bind_eq_some_iff.mp hheader
  obtain ⟨buf, -, hheader⟩ := Option.bind_eq_some_iff.mp hheader
  obtain ⟨stream, -, hheader⟩ := Option.bind_eq_some_iff.mp hheader
  obtain ⟨rfl, -⟩ := Prod.mk.inj (Option.some.inj hheader)
  rfl

/-- What a log statement is given: the insertions leave room for the rest of the record, and they and the name
of the file are on one line. -/
structure LogLine (localtime : Localtime) extends DatedCall localtime where
  insertions : List Insertion
  readable : ∀ insertion ∈ insertions, insertion.Readable
  message_oneLine : 10 ∉ insertions.flatMap Insertion.rendering
  name_oneLine : 10 ∉ (SourceClass.new file).data
  room : (insertions.flatMap Insertion.rendering).length + (SourceClass.new file).data.length + 95 ≤ smallSize

namespace LogLine

variable {localtime : Localtime}

/-- The header, with the id of the thread if `tid()` has been called. -/
def header (line : LogLine localtime) (gettid : ThreadId) (cached : Bool) : Bytes :=
  timeText (localtime.tm (line.now.tdiv microsecond2Second)) ++
    (zeroPadded 6 (line.now.tmod microsecond2Second) ++ ascii " ") ++
      (if cached then ThreadLocals.tidText gettid.value else []) ++ line.level.text

/-- The message. -/
def message (line : LogLine localtime) : Bytes := line.insertions.flatMap Insertion.rendering

/-- The line. -/
def text (line : LogLine localtime) (gettid : ThreadId) (cached : Bool) : Bytes :=
  line.header gettid cached ++ line.message ++ (ascii " - " ++ (SourceClass.new line.file).data ++ [58]) ++
    decimal line.line.toInt

/-- It is one line. -/
theorem lineEnd_text (line : LogLine localtime) (gettid : ThreadId) (cached : Bool) :
    (10 : UInt8) ∉ line.text gettid cached := by
  have hspace : (10 : UInt8) ∉ ascii " " := by decide
  have hdash : (10 : UInt8) ∉ ascii " - " := by decide
  have hcolon : (10 : UInt8) ∉ ([58] : Bytes) := by decide
  have htid : (10 : UInt8) ∉ if cached then ThreadLocals.tidText gettid.value else [] := by
    split_ifs
    · simp only [ThreadLocals.tidText, List.mem_append, lineEnd_padded, hspace, or_self, not_false_eq_true]
    · exact List.not_mem_nil
  have hlevel : (10 : UInt8) ∉ line.level.text := by cases line.level <;> decide
  simp only [text, header, message, List.mem_append, lineEnd_timeText, lineEnd_zeroPadded, hspace, htid, hlevel,
    hdash,
    hcolon, lineEnd_decimal, line.message_oneLine, line.name_oneLine, or_self, not_false_eq_true]

/-- The header has at most 43 characters. -/
theorem length_header_le (line : LogLine localtime) (gettid : ThreadId) (cached : Bool) :
    (line.header gettid cached).length ≤ 43 := by
  have htime := localtime.length_timeText line.year_lower line.year_upper
  have hmicro : (zeroPadded 6 (line.now.tmod microsecond2Second)).length = 6 :=
    length_zeroPadded (by decide) (Int.tmod_nonneg _ line.now_nonneg) (Int.tmod_lt_of_pos _ (by decide))
  have hspace : (ascii " ").length = 1 := by decide
  have htid : (if cached then ThreadLocals.tidText gettid.value else []).length ≤ 12 := by
    split_ifs
    · have hid : (decimal gettid.value).length ≤ 11 :=
        Http.length_decimal_le ⟨(by decide : (-2147483648 : ℤ) ≤ 0).trans gettid.positive.le, gettid.upper⟩
      rw [ThreadLocals.tidText, List.length_append, padded, List.length_append, List.length_replicate, hspace]
      omega
    · exact Nat.zero_le _
  have hlevel := Logger.length_level line.level
  simp only [header, List.length_append, htime, hmicro, hspace, hlevel]
  omega

/-- The record of a log statement is its line. -/
theorem record_eq {gettid : ThreadId} {t : ThreadLocals} (h : t.Cached localtime gettid)
    (line : LogLine localtime) :
    Logger.record localtime gettid line.toLogCall t line.insertions =
      some (line.text gettid (t.cachedTid ≠ 0) ++ [10]) := by
  have hroom := line.room
  have hsize : smallSize = 4096 := rfl
  have hreserve : num2MaxStringLength = 48 := rfl
  obtain ⟨created, t', hnew, -, hcreated⟩ := Logger.exists_new h line.toDatedCall
  have hheader : created.stream.data = line.header gettid (t.cachedTid ≠ 0) := by
    rw [hcreated, header]
    by_cases hzero : t.cachedTid = 0
    · simp [hzero]
    · simp [hzero]
  have hshort := line.length_header_le gettid (t.cachedTid ≠ 0)
  have hfree : created.stream.content.writablebytes = 4096 - (line.header gettid (t.cachedTid ≠ 0)).length := by
    rw [← hheader]
    rfl
  have hfits : line.message.length ≤ created.stream.content.writablebytes := by
    rw [hfree, message]
    omega
  obtain ⟨b, hrun, hdata⟩ := Insertion.exists_run_insert (by decide) created.stream.content line.readable hfits
  have hkept : Insertion.keptText created.stream.content.writablebytes line.insertions = line.message := by
    refine (Insertion.keptText_eq_iff _ _).mpr fun first insertion rest hsplit hinteger => ?_
    have hlength := congrArg List.length (congrArg (List.flatMap Insertion.rendering) hsplit)
    rw [List.flatMap_append, List.length_append] at hlength
    rw [hfree]
    omega
  have hcontent := LogStream.content_run created.stream line.insertions
  rw [hrun] at hcontent
  obtain ⟨stream, hstream, rfl⟩ := Option.map_eq_some_iff.mp hcontent
  have hfilled := Logger.filled_of_run hnew hstream
  have hname := Logger.fileinfo_of_filled hfilled
  have hlen : (SourceClass.new line.file).len = (SourceClass.new line.file).data.length := by
    rw [SourceClass.len_new]
    exact wrap_eq (by omega) (by omega)
  have hplace : Logger.place { created with stream } = ascii " - " ++ (SourceClass.new line.file).data ++ [58] := by
    rw [Logger.place, Logger.fileName, hname, hlen, Int.toNat_natCast, List.take_length]
  have hmessage : stream.content.data = line.header gettid (t.cachedTid ≠ 0) ++ line.message := by
    rw [hdata, hkept]
    exact congrArg (· ++ line.message) hheader
  have hleft : (ascii " - " ++ (SourceClass.new line.file).data ++ [58]).length + num2MaxStringLength ≤
      stream.content.writablebytes := by
    have hdash : (ascii " - ").length = 3 := by decide
    have hlength := congrArg List.length hmessage
    have hused : stream.content.writablebytes = 4096 - stream.content.data.length := rfl
    rw [List.length_append, message] at hlength
    simp only [List.length_append, List.length_singleton, hdash]
    omega
  have hnumber : created.line = line.line := Logger.line_of_new hnew
  have hfinished := FixedBuffer.data_finished hleft ⟨line.line.le_toInt, line.line.toInt_lt⟩
  rw [hmessage, ← hnumber] at hfinished
  rw [Logger.record_of_filled hfilled, Logger.output_eq (by rw [hname, hlen]; omega) (by rw [hname, hlen]),
    Option.some.injEq,
    Logger.finished, hplace, text, ← hnumber]
  exact hfinished

end LogLine

end WebServer.Log
