import WebServer.Log.LogStream

/-!
# Log records

A record consists of the header that the constructor of `Logger::Implement` writes with `FormattedTime`,
of what the caller inserts into the stream, and of the file name and the line number that `Finish`
adds, followed by a line end. All of it goes through the same buffer, and the destructor hands the
content of the buffer to `g_Output`.

The header is put together from arrays of the thread: `t_time` keeps the text of the second
`t_lastsecond`, and `t_formattedTid` the text of the thread's id, once `CurrentThread::tid()` has been
called.
-/

namespace WebServer.Log

open WebServer.Foundation
open WebServer.Util (Bytes ascii wrap)
open WebServer.Http (decimal minus)

/-- `%4d` and `%5d`, for the given width. -/
def padded (width : ℕ) (n : ℤ) : Bytes := List.replicate (width - (decimal n).length) 32 ++ decimal n

/-- `%02d` and `%06d`, for the given width. -/
def zeroPadded (width : ℕ) (n : ℤ) : Bytes :=
  if n < 0 then minus :: (List.replicate (width - (decimal n).length) 48 ++ Http.digits n.natAbs)
  else List.replicate (width - (decimal n).length) 48 ++ decimal n

/-- `snprintf` of a text into an array. -/
def snprintf {size : ℕ} (array : Block UInt8 size) (text : Bytes) : Option (Block UInt8 size) :=
  array.write 0 (text.take (size - 1) ++ [0])

/-- The members of `struct tm` that are printed. -/
structure Tm where
  year : ℤ
  mon : ℤ
  mday : ℤ
  hour : ℤ
  min : ℤ
  sec : ℤ

/-- `localtime_r`, as a function of the seconds since the epoch. -/
structure Localtime where
  tm : ℤ → Tm
  mon_range (seconds : ℤ) : 0 ≤ (tm seconds).mon ∧ (tm seconds).mon ≤ 11
  mday_range (seconds : ℤ) : 1 ≤ (tm seconds).mday ∧ (tm seconds).mday ≤ 31
  hour_range (seconds : ℤ) : 0 ≤ (tm seconds).hour ∧ (tm seconds).hour ≤ 23
  min_range (seconds : ℤ) : 0 ≤ (tm seconds).min ∧ (tm seconds).min ≤ 59
  sec_range (seconds : ℤ) : 0 ≤ (tm seconds).sec ∧ (tm seconds).sec ≤ 60
  epoch : (tm 0).year ≤ 70

/-- The format of `t_time`. -/
def timeText (tm : Tm) : Bytes :=
  padded 4 (tm.year + 1900) ++ zeroPadded 2 (tm.mon + 1) ++ zeroPadded 2 tm.mday ++ ascii " " ++
    zeroPadded 2 tm.hour ++
    ascii ":" ++ zeroPadded 2 tm.min ++ ascii ":" ++ zeroPadded 2 tm.sec ++ ascii "."

/-- A thread's id as `gettid` returns it. -/
structure ThreadId where
  value : ℤ
  positive : 0 < value
  upper : value < 2147483648

/-- The variables of a thread. -/
structure ThreadLocals where
  lastSecond : ℤ
  time : Block UInt8 64
  cachedTid : ℤ
  formattedTid : Block UInt8 32
  formattedTidLength : ℤ

namespace ThreadLocals

/-- The variables of a new thread. -/
def new : ThreadLocals where
  lastSecond := 0
  time := ⟨List.replicate 64 0, List.length_replicate⟩
  cachedTid := 0
  formattedTid := ⟨List.replicate 32 0, List.length_replicate⟩
  formattedTidLength := 0

/-- The format of `t_formattedTid`. -/
def tidText (tid : ℤ) : Bytes := padded 5 tid ++ ascii " "

/-- `CacheTid()`. -/
def cacheTid (gettid : ThreadId) (t : ThreadLocals) : Option ThreadLocals :=
  if t.cachedTid = 0 then do
    let formattedTid ← snprintf t.formattedTid (tidText gettid.value)
    some { t with cachedTid := gettid.value, formattedTid, formattedTidLength := (tidText gettid.value).length }
  else some t

/-- `tid()`, which returns `t_cachedTid`. -/
def tid (gettid : ThreadId) (t : ThreadLocals) : Option ThreadLocals :=
  if t.cachedTid = 0 then t.cacheTid gettid else some t

/-- The part of `FormattedTime` that writes `t_time`. -/
def formatSecond (localtime : Localtime) (seconds : ℤ) (t : ThreadLocals) : Option ThreadLocals :=
  if t.lastSecond ≠ seconds then do
    let time ← snprintf t.time (timeText (localtime.tm seconds))
    some { t with time, lastSecond := seconds }
  else some t

end ThreadLocals

/-- `Logger::Level`. -/
inductive Level where
  | debug
  | info
  | warn
  | error
  | fatal
deriving DecidableEq

/-- `GetLogLevel()`. -/
def Level.text : Level → Bytes
  | debug => ascii "DEBUG "
  | info => ascii "INFO  "
  | warn => ascii "WARN  "
  | error => ascii "ERROR "
  | fatal => ascii "FATAL "

/-- `kLogLevelStringLength`. -/
def logLevelStringLength : ℤ := 6

/-- `t_formattedtimeLength`. -/
def formattedtimeLength : ℤ := 18

/-- `strrchr(data, chr)`: the position of the last occurrence. -/
def strrchr (data : Bytes) (chr : UInt8) : Option ℕ := (data.reverse.idxOf? chr).map (data.length - 1 - ·)

/-- `SourceClass`: a file name without its directories. -/
structure SourceClass where
  data : Bytes
  len : ℤ

/-- The constructor. -/
def SourceClass.new (data : Bytes) : SourceClass :=
  let len := wrap data.length
  match strrchr data 47 with
  | some forwardSlash => ⟨data.drop (forwardSlash + 1), wrap (len - wrap (forwardSlash + 1))⟩
  | none => ⟨data, len⟩

/-- `Logger::Implement`. -/
structure Logger where
  fileinfo : SourceClass
  line : Int32
  level : Level
  stream : LogStream

/-- The arguments of the constructor, the clock, and what the array of the stream happens to hold. -/
structure LogCall where
  file : Bytes
  line : Int32
  level : Level
  now : ℤ
  garbage : Block UInt8 smallSize

/-- `kMicrosecond2Second`. -/
def microsecond2Second : ℤ := 1000 * 1000

namespace Logger

/-- The insertions of `FormattedTime`, over the local array with the microseconds. -/
def headerInsertions (t : ThreadLocals) (buf : Block UInt8 32) (microlen : ℤ) (level : Level) : List Insertion :=
  [.generalTemplate t.time.cells formattedtimeLength, .generalTemplate buf.cells microlen,
    .generalTemplate t.formattedTid.cells t.formattedTidLength, .generalTemplate level.text logLevelStringLength]

/-- `FormattedTime()`. -/
def formattedTime (localtime : Localtime) (now : ℤ) (logger : Logger) (t : ThreadLocals) :
    Option (Logger × ThreadLocals) := do
  let seconds := now.tdiv microsecond2Second
  let microseconds := now.tmod microsecond2Second
  let t ← t.formatSecond localtime seconds
  let buf ← snprintf ⟨List.replicate 32 0, List.length_replicate⟩ (zeroPadded 6 microseconds ++ ascii " ")
  let microlen := (zeroPadded 6 microseconds ++ ascii " ").length
  let stream ← run LogStream.insert logger.stream (headerInsertions t buf microlen logger.level)
  some ({ logger with stream }, t)

/-- The constructor of `Implement`. -/
def new (localtime : Localtime) (gettid : ThreadId) (call : LogCall) (t : ThreadLocals) :
    Option (Logger × ThreadLocals) := do
  let logger : Logger := ⟨.new call.file, call.line, call.level, .new call.garbage⟩
  let (logger, t) ← logger.formattedTime localtime call.now t
  let t ← t.tid gettid
  some (logger, t)

/-- The insertions of `Finish`. -/
def finishInsertions (logger : Logger) : List Insertion :=
  [.cString (ascii " - "), .generalTemplate logger.fileinfo.data logger.fileinfo.len, .char 58, .int logger.line,
    .char 10]

/-- `Finish()`. -/
def finish (logger : Logger) : Option Logger := do
  let stream ← run LogStream.insert logger.stream logger.finishInsertions
  some { logger with stream }

/-- The destructor of `Implement`: what it passes to `g_Output`. -/
def output (logger : Logger) : Option Bytes := logger.finish.map fun logger => logger.stream.data

/-- The state of a `Logger` when its destructor runs. -/
def filled (localtime : Localtime) (gettid : ThreadId) (call : LogCall) (t : ThreadLocals)
    (insertions : List Insertion) :
    Option Logger := do
  let (logger, _) ← new localtime gettid call t
  let stream ← run LogStream.insert logger.stream insertions
  some { logger with stream }

/-- A whole record: a temporary `Logger` is created, its stream is filled, and the `Logger` is destroyed. -/
def record (localtime : Localtime) (gettid : ThreadId) (call : LogCall) (t : ThreadLocals)
    (insertions : List Insertion) :
    Option Bytes := do
  let logger ← filled localtime gettid call t insertions
  logger.output

end Logger

end WebServer.Log
