import WebServer.Log.HeaderCache

/-!
# The end of a record

`Finish` adds the file name, the line number and the line end to a buffer that may be almost full. The texts
are cut to the space left, all at the same place, and the line number is left out when the reserve is
not free. The record ends with the line end exactly if there was room for everything but the line
number, or if the place of the cut is behind some other `'\n'`.
-/

namespace WebServer.Log

open WebServer.Foundation
open WebServer.Util (Bytes ascii wrap wrap_eq)

/-- The last occurrence is inside of the text. -/
theorem strrchr_lt {data : Bytes} {chr : UInt8} {position : ℕ} (h : strrchr data chr = some position) :
    position < data.length := by
  obtain ⟨index, hindex, rfl⟩ := Option.map_eq_some_iff.mp h
  cases data with
  | nil => cases hindex
  | cons first rest =>
    rw [List.length_cons]
    omega

/-- The length of a file name is computed in `int`, before and after the directories are removed. -/
theorem SourceClass.len_new (data : Bytes) : (new data).len = wrap (new data).data.length := by
  rw [new]
  split
  · next forwardSlash hslash =>
    have hinside := strrchr_lt hslash
    change wrap (wrap data.length - wrap (forwardSlash + 1)) = wrap (data.drop (forwardSlash + 1)).length
    rw [List.length_drop, wrap, wrap, wrap, wrap]
    omega
  · rfl

example : (SourceClass.new (ascii "src/log/logging.cc")).data = ascii "logging.cc" := by decide

namespace Logger

/-- The name of the file, as far as its length says. -/
def fileName (logger : Logger) : Bytes := logger.fileinfo.data.take logger.fileinfo.len.toNat

/-- What `Finish` adds in front of the line number. -/
def place (logger : Logger) : Bytes := ascii " - " ++ logger.fileName ++ [58]

/-- What `Finish` does to the content of the buffer. -/
def finished (logger : Logger) : FixedBuffer smallSize :=
  ((logger.stream.content.append logger.place).appendInteger logger.line.toInt).append [10]

/-- The record is read off the content after the insertions of `Finish`. -/
theorem output_eq_run (logger : Logger) : logger.output =
    (run FixedBuffer.insert logger.stream.content (logger.finishInsertions.map
      Insertion.piece)).map FixedBuffer.data := by
  rw [← LogStream.content_run, output, finish]
  cases run LogStream.insert logger.stream logger.finishInsertions with
  | none => rfl
  | some stream => rfl

/-- With a length that the file name has, the record is the content after `Finish`. -/
theorem output_eq {logger : Logger} (hnonneg : 0 ≤ logger.fileinfo.len)
    (hlength : logger.fileinfo.len ≤ logger.fileinfo.data.length) : logger.output = some logger.finished.data := by
  have hdash (b : FixedBuffer smallSize) :
      b.insert (.text (ascii " - ") (wrap (ascii " - ").length)) = some (b.append (ascii " - ")) := by
    have hall : (ascii " - ").take (wrap (ascii " - ").length).toNat = ascii " - " := by decide
    rw [FixedBuffer.insert, b.appendSome_of_readable (by decide) (by decide), hall]
  have hname (b : FixedBuffer smallSize) :
      b.insert (.text logger.fileinfo.data logger.fileinfo.len) = some (b.append logger.fileName) :=
    b.appendSome_of_readable hnonneg hlength
  have hchar (b : FixedBuffer smallSize) (chr : UInt8) : b.insert (.text [chr] 1) = some (b.append [chr]) := by
    have hone : (1 : ℤ) ≤ ([chr].length : ℤ) := le_rfl
    rw [FixedBuffer.insert, b.appendSome_of_readable (by decide) hone]
    rfl
  have hnumber (b : FixedBuffer smallSize) (n : ℤ) : b.insert (.number n) = some (b.appendInteger n) := rfl
  rw [output_eq_run, finishInsertions]
  simp only [List.map_cons, List.map_nil, Insertion.piece, run_cons, hdash, hname, hchar, hnumber,
    Option.bind_some, run_nil,
    Option.map_some, FixedBuffer.append_append]
  rfl

/-- Without one, there is no record. -/
theorem output_eq_none {logger : Logger} (h : logger.fileinfo.len < 0) : logger.output = none := by
  have hname (b : FixedBuffer smallSize) : b.insert (.text logger.fileinfo.data logger.fileinfo.len) = none :=
    b.appendSome_of_neg _ h
  rw [output_eq_run, finishInsertions]
  simp only [List.map_cons, Insertion.piece, run_cons, hname, Option.bind_none, Option.bind_fun_none,
    Option.map_none]

/-- With room for another character behind the file name, the record ends with the line end. -/
theorem getLast?_finished_of_room {logger : Logger} (h : logger.place.length < logger.stream.writablebytes) :
    logger.finished.data.getLast? = some 10 := by
  have hplace : 0 < (logger.stream.content.append logger.place).writablebytes := by
    rw [FixedBuffer.writablebytes_append, RawFixedBuffer.writablebytes_content]
    omega
  have hroom : [10].length ≤ ((logger.stream.content.append logger.place).appendInteger
    logger.line.toInt).writablebytes :=
    FixedBuffer.room_appendInteger hplace ⟨logger.line.le_toInt, logger.line.toInt_lt⟩
  rw [finished, FixedBuffer.data_append hroom, List.getLast?_concat]

/-- Without it, the record is cut, and nothing comes behind the cut. -/
theorem finished_of_cut {logger : Logger} (h : logger.stream.writablebytes ≤ logger.place.length) :
    logger.finished.data = logger.stream.data ++ logger.place.take logger.stream.writablebytes := by
  have hfull : (logger.stream.content.append logger.place).writablebytes = 0 := by
    rw [FixedBuffer.writablebytes_append, RawFixedBuffer.writablebytes_content]
    omega
  rw [finished, FixedBuffer.appendInteger_of_full hfull, FixedBuffer.append_of_full hfull,
    FixedBuffer.data_append_take,
    RawFixedBuffer.writablebytes_content]
  rfl

/-- A cut behind a line end is one behind a line end in the file name, or no byte was free. -/
theorem getLast?_take_place (data name : Bytes) {free : ℕ} (h : free ≤ name.length + 4) :
    (data ++ (ascii " - " ++ name ++ [58]).take free).getLast? = some 10 ↔
      (4 ≤ free ∧ free < name.length + 4 ∧ name[free - 4]? = some 10) ∨ (free = 0 ∧ data.getLast? = some 10) := by
  have hdash : ascii " - " ++ name ++ [58] = 32 :: 45 :: 32 :: (name ++ [58]) := rfl
  rw [hdash]
  match free with
  | 0 => simp
  | 1 => simp
  | 2 => simp
  | 3 => simp
  | index + 4 =>
    have hinside : index < (name ++ [58]).length := by
      rw [List.length_append, List.length_singleton]
      omega
    have hskip : (32 :: 45 :: 32 :: (name ++ [58]))[index + 4 - 1]? = (name ++ [58])[index]? := rfl
    have hlast : (data ++ (32 :: 45 :: 32 :: (name ++ [58])).take (index + 4)).getLast? =
      (name ++ [58])[index]? := by
      rw [List.getLast?_append, List.getLast?_take, if_neg (Nat.succ_ne_zero _), hskip,
        List.getElem?_eq_getElem hinside,
        Option.some_or, Option.some_or]
    rw [hlast, Nat.add_sub_cancel]
    by_cases hname : index < name.length
    · rw [List.getElem?_append_left hname]
      simp [hname]
    · have hcolon : index = name.length := by omega
      subst hcolon
      simp

/-- The record ends with a line end. -/
def EndsLine (record : Option Bytes) : Prop := ∃ text, record = some text ∧ text.getLast? = some 10

/-- Before the destructor runs, there is room for everything but the line number, or the cut will be behind some
other `'\n'`. -/
def RoomForLine (logger : Logger) : Prop :=
  0 ≤ logger.fileinfo.len ∧
    (logger.fileName.length + 5 ≤ logger.stream.writablebytes ∨
      (4 ≤ logger.stream.writablebytes ∧ logger.stream.writablebytes < logger.fileName.length + 4 ∧
        logger.fileName[logger.stream.writablebytes - 4]? = some 10) ∨
      (logger.stream.writablebytes = 0 ∧ logger.stream.data.getLast? = some 10))

/-- What the destructor passes on ends with a line end if and only if there is room for it. -/
theorem endsLine_output_iff {logger : Logger} (h : logger.fileinfo.len ≤ logger.fileinfo.data.length) :
    EndsLine logger.output ↔ logger.RoomForLine := by
  by_cases hnonneg : 0 ≤ logger.fileinfo.len
  · have hlength : logger.place.length = logger.fileName.length + 4 := by
      rw [place, List.length_append, List.length_append]
      change 3 + logger.fileName.length + 1 = _
      omega
    rw [output_eq hnonneg h, EndsLine, RoomForLine, and_iff_right hnonneg]
    simp only [Option.some.injEq, exists_eq_left']
    by_cases hroom : logger.place.length < logger.stream.writablebytes
    · exact iff_of_true (getLast?_finished_of_room hroom) (Or.inl (by omega))
    · have hcut : logger.stream.writablebytes ≤ logger.fileName.length + 4 := by omega
      have hfew : ¬ logger.fileName.length + 5 ≤ logger.stream.writablebytes := by omega
      rw [finished_of_cut (not_lt.mp hroom), place, getLast?_take_place _ _ hcut, or_iff_right hfew]
  · refine iff_of_false ?_ fun hroom => hnonneg hroom.1
    rintro ⟨text, hrecord, -⟩
    rw [output_eq_none (not_le.mp hnonneg)] at hrecord
    cases hrecord

/-- `FormattedTime` leaves the file name alone. -/
theorem fileinfo_of_formattedTime {localtime : Localtime} {now : ℤ} {logger logger' : Logger} {t t' : ThreadLocals}
    (h : logger.formattedTime localtime now t = some (logger', t')) : logger'.fileinfo = logger.fileinfo := by
  rw [formattedTime] at h
  obtain ⟨t₁, -, h⟩ := Option.bind_eq_some_iff.mp h
  obtain ⟨buf, -, h⟩ := Option.bind_eq_some_iff.mp h
  obtain ⟨stream, -, h⟩ := Option.bind_eq_some_iff.mp h
  obtain ⟨rfl, -⟩ := Prod.mk.inj (Option.some.inj h)
  rfl

/-- A `Logger` keeps the file name it was created with. -/
theorem fileinfo_of_filled {localtime : Localtime} {gettid : ThreadId} {call : LogCall} {t : ThreadLocals}
    {insertions : List Insertion} {logger : Logger} (h : filled localtime gettid call t insertions = some logger) :
    logger.fileinfo = .new call.file := by
  rw [filled] at h
  obtain ⟨⟨logger₁, t₁⟩, hnew, h⟩ := Option.bind_eq_some_iff.mp h
  obtain ⟨stream, -, h⟩ := Option.bind_eq_some_iff.mp h
  obtain rfl := Option.some.inj h
  rw [new] at hnew
  obtain ⟨⟨logger₂, t₂⟩, hheader, hnew⟩ := Option.bind_eq_some_iff.mp hnew
  obtain ⟨t₃, -, hnew⟩ := Option.bind_eq_some_iff.mp hnew
  obtain ⟨rfl, -⟩ := Prod.mk.inj (Option.some.inj hnew)
  exact fileinfo_of_formattedTime hheader

/-- The record is what the destructor passes on. -/
theorem record_of_filled {localtime : Localtime} {gettid : ThreadId} {call : LogCall} {t : ThreadLocals}
    {insertions : List Insertion} {logger : Logger} (h : filled localtime gettid call t insertions = some logger) :
    record localtime gettid call t insertions = logger.output := by
  rw [record, h, Option.bind_eq_bind, Option.bind_some]

/-- A record ends with a line end if and only if its insertions leave room for it. -/
theorem endsLine_record_iff (localtime : Localtime) (gettid : ThreadId) (call : LogCall) (t : ThreadLocals)
    (insertions : List Insertion) : EndsLine (record localtime gettid call t insertions) ↔
      ∃ logger, filled localtime gettid call t insertions = some logger ∧ logger.RoomForLine := by
  cases hfilled : filled localtime gettid call t insertions with
  | none => simp [EndsLine, record, hfilled]
  | some logger =>
    have hlength : logger.fileinfo.len ≤ logger.fileinfo.data.length := by
      rw [fileinfo_of_filled hfilled, SourceClass.len_new, wrap]
      omega
    rw [record_of_filled hfilled, endsLine_output_iff hlength]
    simp only [Option.some.injEq, exists_eq_left']

/-- The stream of a new `Logger` is filled. -/
theorem filled_of_run {localtime : Localtime} {gettid : ThreadId} {call : LogCall} {t t' : ThreadLocals}
    {insertions : List Insertion} {logger : Logger} {stream : LogStream}
    (hnew : new localtime gettid call t = some (logger, t'))
    (hrun : run LogStream.insert logger.stream insertions = some stream) :
    filled localtime gettid call t insertions = some { logger with stream } := by
  simp only [filled, hnew, hrun, Option.bind_eq_bind, Option.bind_some]

/-- A text that is logged stands behind the header, up to the space left. -/
theorem exists_filled_text {localtime : Localtime} {gettid : ThreadId} {t : ThreadLocals}
    (h : t.Cached localtime gettid)
    (call : DatedCall localtime) {text : Bytes} (htext : text.length < 2147483648) :
    ∃ header logger t', new localtime gettid call.toLogCall t = some (header, t') ∧
      filled localtime gettid call.toLogCall t [.string text] = some logger ∧
        logger.stream.data = header.stream.data ++ text.take header.stream.writablebytes := by
  obtain ⟨header, t', hnew, -, -⟩ := exists_new h call
  have hwhole : wrap text.length = text.length := wrap_eq (by omega) (by omega)
  have hinsert := LogStream.content_insert header.stream (.string text)
  rw [Insertion.piece, FixedBuffer.insert, hwhole, FixedBuffer.appendSome_of_readable _ (by omega) le_rfl,
    Int.toNat_natCast,
    List.take_length] at hinsert
  obtain ⟨stream, hstream, hcontent⟩ := Option.map_eq_some_iff.mp hinsert
  have hdata := congrArg FixedBuffer.data hcontent
  rw [FixedBuffer.data_append_take, RawFixedBuffer.writablebytes_content] at hdata
  exact ⟨header, { header with stream }, t', hnew, filled_of_run hnew
    (run_cons_eq_some.mpr ⟨stream, hstream, rfl⟩), hdata⟩

/-- A text that fills the buffer is cut, and the record ends with the text. -/
theorem not_endsLine_long : ∃ text,
    record firstSeconds firstThread firstCall.toLogCall .new [.string (List.replicate 4096 97)] = some text ∧
      text.length = 4096 ∧ text.getLast? = some 97 ∧
        ¬ EndsLine (record firstSeconds firstThread firstCall.toLogCall .new
          [.string (List.replicate 4096 97)]) := by
  have hlong : (List.replicate 4096 (97 : UInt8)).length = 4096 := List.length_replicate
  have hcached := ThreadLocals.cached_new firstSeconds firstThread
  obtain ⟨header, logger, t', hnew, hfilled, hdata⟩ := exists_filled_text hcached firstCall
    (hlong.trans_lt (by decide))
  obtain ⟨header', t'', hnew', -, hheader⟩ := exists_new hcached firstCall
  obtain ⟨rfl, -⟩ := Prod.mk.inj (Option.some.inj (hnew.symm.trans hnew'))
  have hshort : header.stream.data.length = 31 := by
    rw [hheader]
    decide +kernel
  have hfree : header.stream.writablebytes = 4065 := by
    rw [RawFixedBuffer.writablebytes, ← RawFixedBuffer.length_data, hshort]
    rfl
  rw [hfree, List.take_replicate] at hdata
  have hlength : logger.stream.data.length = 4096 := by
    rw [hdata, List.length_append, hshort, List.length_replicate]
    rfl
  have hfull : logger.stream.writablebytes = 0 := by
    rw [RawFixedBuffer.writablebytes, ← RawFixedBuffer.length_data, hlength]
    rfl
  have hlast : logger.stream.data.getLast? = some 97 := by
    rw [hdata, List.getLast?_append, List.getLast?_replicate]
    rfl
  have houtput : record firstSeconds firstThread firstCall.toLogCall .new [.string (List.replicate 4096 97)] =
      some logger.stream.data := by
    have hlen : 0 ≤ logger.fileinfo.len ∧ logger.fileinfo.len ≤ logger.fileinfo.data.length := by
      rw [fileinfo_of_filled hfilled]
      decide
    have hcut : logger.stream.writablebytes ≤ logger.place.length := hfull.trans_le (Nat.zero_le _)
    have hrecord := output_eq hlen.1 hlen.2
    rw [finished_of_cut hcut, hfull, List.take_zero, List.append_nil] at hrecord
    rw [record_of_filled hfilled, hrecord]
  refine ⟨_, houtput, hlength, hlast, ?_⟩
  rintro ⟨text, htext, hends⟩
  rw [houtput, Option.some.injEq] at htext
  rw [← htext, hlast] at hends
  exact absurd hends (by decide)

end Logger

end WebServer.Log
