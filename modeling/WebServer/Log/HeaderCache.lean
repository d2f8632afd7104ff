import WebServer.Log.Logging

/-!
# The cached parts of a header

A thread formats the time once a second and its id once. The text of the time is that of the second
`t_lastsecond` from the first record on, because no reading after 1970 is in the second `0` with which a
thread starts. The text of the id is empty until `CurrentThread::tid()` has been called, and the
constructor of `Logger::Implement` calls it behind `FormattedTime`, so a record has the header that is
formatted from scratch exactly if its thread called `tid()` before.
-/

namespace WebServer.Log

open WebServer.Foundation
open WebServer.Util (Bytes ascii)
open WebServer.Http (decimal decimal_natCast)

/-- Some text is read back from the array it was printed into. -/
theorem snprintf_eq {size : ℕ} (array : Block UInt8 size) {text : Bytes} (h : text.length < size) :
    ∃ array', snprintf array text = some array' ∧ array'.cells.take text.length = text := by
  have hall : text.take (size - 1) = text := List.take_of_length_le (by omega)
  have hlength : (text ++ [0]).length = text.length + 1 := List.length_append
  obtain ⟨array', hwrite⟩ := @Block.exists_write _ _ array 0 (text ++ [0]) (by omega)
  have hread : array'.cells.take (text.length + 1) = text ++ [0] := by
    have hback := Block.read_of_write hwrite
    rwa [Block.read, window, List.drop_zero, Nat.sub_zero, Nat.zero_add, hlength] at hback
  refine ⟨array', by rw [snprintf, hall, hwrite], ?_⟩
  have htake := congrArg (List.take text.length) hread
  rwa [List.take_take, Nat.min_eq_left (Nat.le_succ _), List.take_left] at htake

/-- A number of at most as many digits as the width has is printed in the width. -/
theorem length_zeroPadded {width : ℕ} (hwidth : 0 < width) {n : ℤ} (hnonneg : 0 ≤ n) (hupper : n < 10 ^ width) :
    (zeroPadded width n).length = width := by
  obtain ⟨m, rfl⟩ := Int.eq_ofNat_of_zero_le hnonneg
  have hdigits : (decimal (m : ℤ)).length ≤ width := by
    rw [decimal_natCast]
    exact Http.length_digits_le hwidth (by exact_mod_cast hupper)
  rw [zeroPadded, if_neg (not_lt.mpr hnonneg), List.length_append, List.length_replicate]
  omega

/-- A number that is no longer than the width is printed in the width. -/
theorem length_padded {width : ℕ} {n : ℤ} (h : (decimal n).length ≤ width) : (padded width n).length = width := by
  rw [padded, List.length_append, List.length_replicate]
  omega

namespace Localtime

/-- The time of a year of four digits has 18 characters. -/
theorem length_timeText (localtime : Localtime) {seconds : ℤ} (hlower : 71 ≤ (localtime.tm seconds).year)
    (hupper : (localtime.tm seconds).year ≤ 8099) : (timeText (localtime.tm seconds)).length = 18 := by
  have hyear : (decimal ((localtime.tm seconds).year + 1900)).length ≤ 4 := by
    obtain ⟨m, hm⟩ := Int.eq_ofNat_of_zero_le (by omega : 0 ≤ (localtime.tm seconds).year + 1900)
    rw [hm, decimal_natCast]
    exact Http.length_digits_le (by decide) (by omega)
  have htwo {n : ℤ} (hnonneg : 0 ≤ n) (hless : n < 100) : (zeroPadded 2 n).length = 2 :=
    length_zeroPadded (by decide) hnonneg hless
  have hmon := localtime.mon_range seconds
  have hmday := localtime.mday_range seconds
  have hhour := localtime.hour_range seconds
  have hmin := localtime.min_range seconds
  have hsec := localtime.sec_range seconds
  have hspace : (ascii " ").length = 1 := by decide
  have hcolon : (ascii ":").length = 1 := by decide
  have hdot : (ascii ".").length = 1 := by decide
  simp only [timeText, List.length_append, length_padded hyear, hspace, hcolon, hdot,
    htwo (by omega) (by omega : (localtime.tm seconds).mon + 1 < 100),
    htwo (by omega) (by omega : (localtime.tm seconds).mday < 100),
    htwo (by omega) (by omega : (localtime.tm seconds).hour < 100),
    htwo (by omega) (by omega : (localtime.tm seconds).min < 100),
    htwo (by omega) (by omega : (localtime.tm seconds).sec < 100)]

end Localtime

/-- The text of a thread's id is shorter than the array for it, and not empty. -/
theorem ThreadId.length_tidText (gettid : ThreadId) :
    0 < (ThreadLocals.tidText gettid.value).length ∧ (ThreadLocals.tidText gettid.value).length < 32 := by
  have hdecimal : (decimal gettid.value).length ≤ 11 :=
    Http.length_decimal_le ⟨(by decide : (-2147483648 : ℤ) ≤ 0).trans gettid.positive.le, gettid.upper⟩
  have hspace : (ascii " ").length = 1 := by decide
  rw [ThreadLocals.tidText, List.length_append, padded, List.length_append, List.length_replicate, hspace]
  omega

/-- A record that is created at a time in the years 1971 to 9999. -/
structure DatedCall (localtime : Localtime) extends LogCall where
  now_nonneg : 0 ≤ now
  year_lower : 71 ≤ (localtime.tm (now.tdiv microsecond2Second)).year
  year_upper : (localtime.tm (now.tdiv microsecond2Second)).year ≤ 8099

namespace ThreadLocals

/-- What the arrays of a thread hold. -/
structure Cached (localtime : Localtime) (gettid : ThreadId) (t : ThreadLocals) : Prop where
  second : t.lastSecond = 0 ∨ t.time.cells.take 18 = timeText (localtime.tm t.lastSecond)
  tid : t.cachedTid = 0 ∧ t.formattedTidLength = 0 ∨
    t.cachedTid = gettid.value ∧ t.formattedTidLength = (tidText gettid.value).length ∧
      t.formattedTid.cells.take (tidText gettid.value).length = tidText gettid.value

variable {localtime : Localtime} {gettid : ThreadId}

/-- A new thread has cached nothing. -/
theorem cached_new (localtime : Localtime) (gettid : ThreadId) : new.Cached localtime gettid :=
  ⟨Or.inl rfl, Or.inl ⟨rfl, rfl⟩⟩

/-- The cached text of the id, none before `tid()` has been called. -/
def tidPart (t : ThreadLocals) : Bytes := t.formattedTid.cells.take t.formattedTidLength.toNat

/-- The length of the cached text is in bounds, and it is the text of the id if `tid()` has been called. -/
theorem Cached.tidPart_eq {t : ThreadLocals} (h : t.Cached localtime gettid) :
    (0 ≤ t.formattedTidLength ∧ t.formattedTidLength ≤ t.formattedTid.cells.length) ∧
      t.tidPart = if t.cachedTid = 0 then [] else tidText gettid.value := by
  have hsized := t.formattedTid.sized
  have hlength := gettid.length_tidText
  have hpositive := gettid.positive
  rw [tidPart]
  obtain ⟨hzero, hnone⟩ | ⟨htid, hlen, htext⟩ := h.tid
  · rw [hnone, if_pos hzero]
    exact ⟨⟨le_rfl, by omega⟩, rfl⟩
  · rw [hlen, if_neg (by omega), Int.toNat_natCast, htext]
    exact ⟨⟨by omega, by omega⟩, rfl⟩

/-- Calling `tid()` caches the text of the id. -/
theorem Cached.tid_step {t : ThreadLocals} (h : t.Cached localtime gettid) :
    ∃ t', t.tid gettid = some t' ∧ t'.Cached localtime gettid := by
  by_cases hzero : t.cachedTid = 0
  · obtain ⟨formattedTid, hprint, htext⟩ := snprintf_eq t.formattedTid gettid.length_tidText.2
    refine ⟨{ t with
      cachedTid := gettid.value, formattedTid, formattedTidLength := (tidText gettid.value).length }, ?_, h.second,
      Or.inr ⟨rfl, rfl, htext⟩⟩
    rw [ThreadLocals.tid, if_pos hzero, cacheTid, if_pos hzero, hprint]
    rfl
  · exact ⟨t, if_neg hzero, h⟩

/-- Before a header is written, `t_time` holds the text of the present second. -/
theorem Cached.formatSecond_step {t : ThreadLocals} (h : t.Cached localtime gettid) (call : DatedCall localtime) :
    ∃ t', t.formatSecond localtime (call.now.tdiv microsecond2Second) = some t' ∧ t'.Cached localtime gettid ∧
      t'.time.cells.take 18 = timeText (localtime.tm (call.now.tdiv microsecond2Second)) ∧
        t'.tidPart = t.tidPart := by
  have hlength := localtime.length_timeText call.year_lower call.year_upper
  by_cases hnew : t.lastSecond ≠ call.now.tdiv microsecond2Second
  · obtain ⟨time, hprint, htext⟩ := snprintf_eq t.time (hlength.trans_lt (by decide : 18 < 64))
    rw [hlength] at htext
    refine ⟨{ t with time, lastSecond := call.now.tdiv microsecond2Second }, ?_, ⟨Or.inr htext, h.tid⟩, htext, rfl⟩
    rw [formatSecond, if_pos hnew, hprint]
    rfl
  · have hsame : t.lastSecond = call.now.tdiv microsecond2Second := not_not.mp hnew
    have hsecond : t.lastSecond ≠ 0 := by
      intro hzero
      have hepoch := localtime.epoch
      have hyear := call.year_lower
      rw [← hsame, hzero] at hyear
      omega
    exact ⟨t, if_neg hnew, h, hsame ▸ h.second.resolve_left hsecond, rfl⟩

end ThreadLocals

/-- The header that is formatted from scratch. -/
def freshHeader (localtime : Localtime) (gettid : ThreadId) (now : ℤ) (level : Level) : Bytes :=
  timeText (localtime.tm (now.tdiv microsecond2Second)) ++ (zeroPadded 6 (now.tmod microsecond2Second) ++
    ascii " ") ++
    ThreadLocals.tidText gettid.value ++ level.text

namespace Logger

open ThreadLocals (tidText)

variable {localtime : Localtime} {gettid : ThreadId}

/-- The text of a level has the length with which it is inserted. -/
theorem length_level (level : Level) : level.text.length = 6 := by
  cases level <;> rfl

/-- The insertions of a header leave their texts in a new stream. -/
theorem exists_run_header {t : ThreadLocals} (h : t.Cached localtime gettid) (garbage : Block UInt8 smallSize)
    {buf : Block UInt8 32} {microlen : ℕ} (hmicrolen : microlen ≤ 32) (level : Level) :
    ∃ stream, run LogStream.insert (.new garbage) (headerInsertions t buf microlen level) = some stream ∧
      stream.data = t.time.cells.take 18 ++ buf.cells.take microlen ++ t.tidPart ++ level.text := by
  have htid := h.tidPart_eq.1
  have htime := t.time.sized
  have hbuf := buf.sized
  have hlevel := length_level level
  have hrendering : (headerInsertions t buf microlen level).flatMap Insertion.rendering =
      t.time.cells.take 18 ++ buf.cells.take microlen ++ t.tidPart ++ level.text := by
    have htext : level.text.take logLevelStringLength.toNat = level.text := List.take_of_length_le hlevel.le
    simp only [headerInsertions, List.flatMap_cons, List.flatMap_nil, Insertion.rendering, Int.toNat_natCast, htext,
      List.append_nil, List.append_assoc]
    rfl
  have hreadable : ∀ insertion ∈ headerInsertions t buf microlen level, insertion.Readable := by
    have hlength : formattedtimeLength = 18 := rfl
    have hsix : logLevelStringLength = 6 := rfl
    simp only [headerInsertions, List.forall_mem_cons, List.not_mem_nil, false_imp_iff, implies_true, and_true,
      Insertion.Readable]
    omega
  have hshort : ((headerInsertions t buf microlen level).flatMap Insertion.rendering).length ≤ smallSize := by
    have hpart : t.tidPart.length ≤ 32 := (List.length_take_le' _ _).trans t.formattedTid.sized.le
    have hsize : smallSize = 4096 := rfl
    rw [hrendering]
    simp only [List.length_append, List.length_take]
    omega
  have htexts : Insertion.keptText smallSize (headerInsertions t buf microlen level) =
      (headerInsertions t buf microlen level).flatMap Insertion.rendering :=
    Insertion.keptText_of_texts _ (by simp [headerInsertions, Insertion.number?, Insertion.piece])
  obtain ⟨stream, hrun, hdata⟩ := LogStream.data_run_insert garbage hreadable hshort
  exact ⟨stream, hrun, hdata.trans (htexts.trans hrendering)⟩

/-- The header consists of the time, the microseconds, the cached text of the id, and the level. -/
theorem exists_new {t : ThreadLocals} (h : t.Cached localtime gettid) (call : DatedCall localtime) :
    ∃ logger t', new localtime gettid call.toLogCall t = some (logger, t') ∧ t'.Cached localtime gettid ∧
      logger.stream.data = timeText (localtime.tm (call.now.tdiv microsecond2Second)) ++
        (zeroPadded 6 (call.now.tmod microsecond2Second) ++ ascii " ") ++
          (if t.cachedTid = 0 then [] else tidText gettid.value) ++ call.level.text := by
  obtain ⟨t₁, hsecond, hcached₁, htime, hpart⟩ := h.formatSecond_step call
  obtain ⟨t₂, htid, hcached₂⟩ := hcached₁.tid_step
  have hmicro : (zeroPadded 6 (call.now.tmod microsecond2Second) ++ ascii " ").length = 7 := by
    have hsix : (zeroPadded 6 (call.now.tmod microsecond2Second)).length = 6 :=
      length_zeroPadded (by decide) (Int.tmod_nonneg _ call.now_nonneg) (Int.tmod_lt_of_pos _ (by decide))
    have hspace : (ascii " ").length = 1 := by decide
    rw [List.length_append, hsix, hspace]
  have hshort : (zeroPadded 6 (call.now.tmod microsecond2Second) ++ ascii " ").length < 32 :=
    hmicro.trans_lt (by decide)
  obtain ⟨buf, hprint, hbuf⟩ := snprintf_eq ⟨List.replicate 32 0, List.length_replicate⟩ hshort
  obtain ⟨stream, hrun, hdata⟩ := @exists_run_header _ _ t₁ hcached₁ call.garbage buf _ hshort.le call.level
  refine ⟨⟨.new call.file, call.line, call.level, stream⟩, t₂, ?_, hcached₂, ?_⟩
  · simp only [new, formattedTime, hsecond, hprint, hrun, htid, Option.bind_eq_bind, Option.bind_some]
  · rw [hdata, htime, hbuf, hpart, h.tidPart_eq.2]

/-- The header is the one that is formatted from scratch exactly if the id has been cached. -/
theorem data_new_iff {t : ThreadLocals} (h : t.Cached localtime gettid) (call : DatedCall localtime) :
    (∃ logger t', new localtime gettid call.toLogCall t = some (logger, t') ∧
      logger.stream.data = freshHeader localtime gettid call.now call.level) ↔ t.cachedTid ≠ 0 := by
  obtain ⟨logger, t', hnew, -, hdata⟩ := exists_new h call
  have hsome := gettid.length_tidText.1
  constructor
  · rintro ⟨logger₁, t₁, hnew₁, hfresh⟩ hzero
    obtain ⟨rfl, rfl⟩ := Prod.mk.inj (Option.some.inj (hnew.symm.trans hnew₁))
    have hlength := congrArg List.length (hdata.symm.trans hfresh)
    rw [if_pos hzero, freshHeader] at hlength
    simp only [List.length_append, List.length_nil] at hlength
    omega
  · intro hcached
    rw [if_neg hcached] at hdata
    exact ⟨logger, t', hnew, hdata⟩

end Logger

/-- What a thread does with these variables: it calls `tid()`, or it creates a record. -/
inductive ThreadAction (localtime : Localtime) where
  | tid
  | log (call : DatedCall localtime)

namespace ThreadLocals

variable {localtime : Localtime} {gettid : ThreadId}

/-- The variables after an action of the thread. -/
def step (gettid : ThreadId) (t : ThreadLocals) : ThreadAction localtime → Option ThreadLocals
  | .tid => t.tid gettid
  | .log call => (Logger.new localtime gettid call.toLogCall t).map Prod.snd

/-- A record has the header that is formatted from scratch. -/
def HeaderFresh (gettid : ThreadId) (t : ThreadLocals) : ThreadAction localtime → Prop
  | .tid => True
  | .log call => ∃ logger t', Logger.new localtime gettid call.toLogCall t = some (logger, t') ∧
      logger.stream.data = freshHeader localtime gettid call.now call.level

/-- A record is created by a thread that has called `tid()`. -/
def TidCached (t : ThreadLocals) : ThreadAction localtime → Prop
  | .tid => True
  | .log _ => t.cachedTid ≠ 0

/-- Every action of the thread leaves the arrays with what they should hold. -/
theorem cached_step (t : ThreadLocals) (action : ThreadAction localtime) (t' : ThreadLocals)
    (h : t.Cached localtime gettid) (hstep : t.step gettid action = some t') : t'.Cached localtime gettid := by
  cases action with
  | tid =>
    obtain ⟨t₁, htid, hcached⟩ := h.tid_step
    exact Option.some.inj (htid.symm.trans hstep) ▸ hcached
  | log call =>
    obtain ⟨logger, t₁, hnew, hcached, -⟩ := Logger.exists_new h call
    obtain ⟨⟨logger₂, t₂⟩, hnew₂, rfl⟩ := Option.map_eq_some_iff.mp hstep
    obtain ⟨-, rfl⟩ := Prod.mk.inj (Option.some.inj (hnew.symm.trans hnew₂))
    exact hcached

/-- In every history of a thread all headers are those formatted from scratch if and only if the thread has called
`tid()` before each of its records. -/
theorem headersFresh_iff (gettid : ThreadId) (actions : List (ThreadAction localtime)) :
    Meets (step gettid) (HeaderFresh gettid) new actions ↔ Meets (step gettid) TidCached new actions := by
  refine meets_congr_of_invariant (fun t action t' => cached_step t action t') (fun t action h => ?_)
    (cached_new localtime gettid) actions
  cases action with
  | tid => exact Iff.rfl
  | log call => exact Logger.data_new_iff h call

end ThreadLocals

/-- `localtime_r` in the first second of 1971 and of 1970, without an offset from UTC. -/
def firstSeconds : Localtime where
  tm seconds := ⟨if seconds = 31536000 then 71 else 70, 0, 1, 0, 0, 0⟩
  mon_range _ := (by decide : (0 : ℤ) ≤ 0 ∧ (0 : ℤ) ≤ 11)
  mday_range _ := (by decide : (1 : ℤ) ≤ 1 ∧ (1 : ℤ) ≤ 31)
  hour_range _ := (by decide : (0 : ℤ) ≤ 0 ∧ (0 : ℤ) ≤ 23)
  min_range _ := (by decide : (0 : ℤ) ≤ 0 ∧ (0 : ℤ) ≤ 59)
  sec_range _ := (by decide : (0 : ℤ) ≤ 0 ∧ (0 : ℤ) ≤ 60)
  epoch := by decide

/-- The id of a thread. -/
def firstThread : ThreadId := ⟨4711, by decide, by decide⟩

/-- A record that is created in the first second of 1971. -/
def firstCall : DatedCall firstSeconds where
  file := ascii "src/main.cc"
  line := 7
  level := .info
  now := 31536000000042
  garbage := ⟨List.replicate smallSize 7, List.length_replicate⟩
  now_nonneg := by decide
  year_lower := by decide
  year_upper := by decide

namespace ThreadLocals

/-- The first record of a thread that has not called `tid()` has no id. -/
theorem not_headersFresh_first :
    (∃ logger t', Logger.new firstSeconds firstThread firstCall.toLogCall new = some (logger, t') ∧
      logger.stream.data = ascii "19710101 00:00:00.000042 INFO  ") ∧
    freshHeader firstSeconds firstThread firstCall.now .info = ascii "19710101 00:00:00.000042  4711 INFO  " ∧
    ¬ Meets (step firstThread) (HeaderFresh firstThread) new [.log firstCall] := by
  have hcached := cached_new firstSeconds firstThread
  refine ⟨?_, by decide +kernel, fun hmeets => ?_⟩
  · obtain ⟨logger, t', hnew, -, hdata⟩ := Logger.exists_new hcached firstCall
    exact ⟨logger, t', hnew, hdata.trans (by decide +kernel)⟩
  · exact (Logger.data_new_iff hcached firstCall).mp hmeets.head rfl

end ThreadLocals

end WebServer.Log
