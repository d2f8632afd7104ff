import WebServer.Foundation.Loop
import WebServer.Http.Decimal
import WebServer.Log.RawFixedBuffer

/-!
# Writing integers into a `LogStream`

`FormatInteger` takes the digits of a number off from the right, with the truncating division of C++,
so the remainders of a negative number are negative and index the front half of `digits`. The digits
are written behind `cur_` as they come, followed by the sign and a terminator, and are then reversed
in place. Reading or writing outside of an array is undefined.

The function is a template. `IntegerType` lists what it needs of the type of its argument.
-/

namespace WebServer.Log

open WebServer.Foundation
open WebServer.Util (Bytes ascii)
open WebServer.Http (decimal decimal_natCast decimal_neg digitByte digits_of_lt digits_of_le head_digits minus
  readDecimal
  readDecimal_decimal)

/-- `kNum2MaxStringLength`. -/
def num2MaxStringLength : ℕ := 48

/-- `digits`. -/
def digits : Bytes := ascii "9876543210123456789"

/-- An integer type of at most 64 bits, with the division and the remainder of C++. -/
class IntegerType (T : Type) extends Div T, Mod T where
  value : T → ℤ
  ten : T
  value_lower (num : T) : -9223372036854775808 ≤ value num
  value_upper (num : T) : value num < 18446744073709551616
  value_div (num : T) : value (num / ten) = (value num).tdiv 10
  value_mod (num : T) : value (num % ten) = (value num).tmod 10

/-- `int`. -/
instance : IntegerType Int32 where
  value := Int32.toInt
  ten := 10
  value_lower num := by
    have hlower := num.le_toInt
    omega
  value_upper num := by
    have hupper := num.toInt_lt
    omega
  value_div num := Int32.toInt_div_of_ne_right num 10 (by decide)
  value_mod num := Int32.toInt_mod num 10

/-- `unsigned int`. -/
instance : IntegerType UInt32 where
  value num := num.toNat
  ten := 10
  value_lower num := by omega
  value_upper num := by
    have hupper := num.toNat_lt
    omega
  value_div num := congrArg Int.ofNat (UInt32.toNat_div num 10)
  value_mod num := congrArg Int.ofNat (UInt32.toNat_mod num 10)

/-- `long` and `long long`. -/
instance : IntegerType Int64 where
  value := Int64.toInt
  ten := 10
  value_lower num := by
    have hlower := num.le_toInt
    omega
  value_upper num := by
    have hupper := num.toInt_lt
    omega
  value_div num := Int64.toInt_div_of_ne_right num 10 (by decide)
  value_mod num := Int64.toInt_mod num 10

/-- `unsigned long` and `unsigned long long`. -/
instance : IntegerType UInt64 where
  value num := num.toNat
  ten := 10
  value_lower num := by omega
  value_upper num := by
    have hupper := num.toNat_lt
    omega
  value_div num := congrArg Int.ofNat (UInt64.toNat_div num 10)
  value_mod num := congrArg Int.ofNat (UInt64.toNat_mod num 10)

/-- `zero[remainder]`, where `zero` points to the tenth element of `digits`. -/
def digitAt (remainder : ℤ) : Option UInt8 := if 0 ≤ 9 + remainder then digits[(9 + remainder).toNat]? else none

/-- The remainder of a number of either sign indexes the last digit of the number. -/
theorem digitAt_tmod (n : ℤ) : digitAt (n.tmod 10) = some (digitByte (n.natAbs % 10)) := by
  have hmirrored : ∀ digit : Fin 10, digitAt digit.val = some (digitByte digit) ∧
      digitAt (-digit.val) = some (digitByte digit) := by decide
  have habs : (n.tmod 10).natAbs = n.natAbs % 10 := Int.natAbs_tmod n 10
  have hlast := hmirrored ⟨n.natAbs % 10, Nat.mod_lt _ (by decide)⟩
  have hsigned : n.tmod 10 = (n.natAbs % 10 : ℕ) ∨ n.tmod 10 = -(n.natAbs % 10 : ℕ) := by omega
  rcases hsigned with hpos | hneg
  · rw [hpos]
    exact hlast.1
  · rw [hneg]
    exact hlast.2

example : digitAt ((-128 : ℤ).tmod 10) = some 56 := by decide

/-- A `LogStream` is its buffer. -/
abbrev LogStream := RawFixedBuffer smallSize

namespace LogStream

section

variable {T : Type} [IntegerType T]

/-- The loop of `FormatInteger`, over `num`, the array, and the position of `now`. -/
def digitTurn : T × Block UInt8 smallSize × ℕ → Option (Turn (T × Block UInt8 smallSize × ℕ)
    (Block UInt8 smallSize × ℕ))
  | (num, buf, now) => do
    let remainder := IntegerType.value (num % IntegerType.ten)
    let digit ← digitAt remainder
    let buf ← buf.write now [digit]
    let num := num / IntegerType.ten
    return if IntegerType.value num ≠ 0 then .again (num, buf, now + 1) else .done (buf, now + 1)

/-- The sign of a negative number. -/
def writeSign (num : T) (buf : Block UInt8 smallSize) (now : ℕ) : Option (Block UInt8 smallSize × ℕ) :=
  if IntegerType.value num < 0 then (buf.write now [minus]).map fun buf => (buf, now + 1) else some (buf, now)

/-- `FormatInteger(num)`. -/
def formatInteger (s : LogStream) (num : T) : Option LogStream :=
  if s.writablebytes ≥ num2MaxStringLength then do
    let (buf, now) ← loop digitTurn ((IntegerType.value num).natAbs + 1) (num, s.buf, s.cur)
    let (buf, now) ← writeSign num buf now
    let buf ← buf.write now [0]
    let buf ← buf.write s.cur (buf.read s.cur now).reverse
    { s with buf }.add (now - s.cur)
  else some s

/-- Some digits of the number stand behind `cur_`, the last one first, and in front of them nothing has
changed. The digits in the list are still to be written. -/
structure DigitsBehind (s : LogStream) (num : T) (left : Bytes) (buf : Block UInt8 smallSize) (now : ℕ) : Prop where
  start_le : s.cur ≤ now
  front : buf.read 0 s.cur = s.buf.read 0 s.cur
  digits : Http.digits (IntegerType.value num).natAbs = left ++ (buf.read s.cur now).reverse

/-- A number of at most 64 bits has at most 20 digits. -/
theorem length_digits_le (num : T) : (Http.digits (IntegerType.value num).natAbs).length ≤ 20 := by
  have hlower := IntegerType.value_lower num
  have hupper := IntegerType.value_upper num
  exact Http.length_digits_le (by decide) (by omega)

/-- The written digits are within the reserve. -/
theorem DigitsBehind.bound {s : LogStream} {num : T} {left : Bytes} {buf : Block UInt8 smallSize} {now : ℕ}
    (h : DigitsBehind s num left buf now) (hnow : now ≤ smallSize) : now + left.length ≤ s.cur + 20 := by
  have hlength := congrArg List.length h.digits
  have hdigits := length_digits_le num
  have hstart := h.start_le
  rw [List.length_append, List.length_reverse, buf.length_read _ hnow] at hlength
  omega

/-- Writing the next digit takes it off from those that are left. -/
theorem DigitsBehind.write {s : LogStream} {num : T} {left : Bytes} {digit : UInt8}
    {buf buf' : Block UInt8 smallSize}
    {now : ℕ} (h : DigitsBehind s num (left ++ [digit]) buf now) (hwrite : buf.write now [digit] = some buf') :
    DigitsBehind s num left buf' (now + 1) where
  start_le := h.start_le.trans (Nat.le_succ _)
  front := (Block.read_before_write hwrite h.start_le).trans h.front
  digits := by
    have hread : buf'.read s.cur (now + 1) = buf.read s.cur now ++ [digit] :=
      Block.read_through_write hwrite h.start_le
    rw [hread, List.reverse_append, h.digits, List.append_assoc]
    rfl

/-- An execution of the loop body writes the last of the digits that are left. -/
theorem digitTurn_step {s : LogStream} (hroom : num2MaxStringLength ≤ s.writablebytes) {num rest : T}
    {buf : Block UInt8 smallSize} {now : ℕ} (hnow : now ≤ smallSize)
    (h : DigitsBehind s num (Http.digits (IntegerType.value rest).natAbs) buf now) :
    (∃ rest' buf', digitTurn (rest, buf, now) = some (.again (rest', buf', now + 1)) ∧ now + 1 ≤ smallSize ∧
        DigitsBehind s num (Http.digits (IntegerType.value rest').natAbs) buf' (now + 1) ∧
          (IntegerType.value rest').natAbs < (IntegerType.value rest).natAbs) ∨
      ∃ buf', digitTurn (rest, buf, now) = some (.done (buf', now + 1)) ∧ now + 1 ≤ smallSize ∧
        DigitsBehind s num [] buf' (now + 1) := by
  have hdigit := digitAt_tmod (IntegerType.value rest)
  have hquotient : (IntegerType.value (rest / IntegerType.ten)).natAbs = (IntegerType.value rest).natAbs / 10 := by
    rw [IntegerType.value_div]
    exact Int.natAbs_tdiv _ 10
  have hsome : (Http.digits (IntegerType.value rest).natAbs).length ≠ 0 := by simp [Http.digits]
  have hbound := h.bound hnow
  have hwithin : now + 1 ≤ smallSize := by
    rw [RawFixedBuffer.writablebytes, num2MaxStringLength] at hroom
    omega
  have hfits : now + [digitByte ((IntegerType.value rest).natAbs % 10)].length ≤ smallSize := hwithin
  obtain ⟨buf', hwrite⟩ := buf.exists_write hfits
  simp only [digitTurn, IntegerType.value_mod, hdigit, hwrite, Option.bind_eq_bind, Option.bind_some,
    Option.pure_def]
  by_cases hmore : 10 ≤ (IntegerType.value rest).natAbs
  · left
    have hne : IntegerType.value (rest / IntegerType.ten) ≠ 0 := by omega
    rw [digits_of_le hmore, ← hquotient] at h
    exact ⟨_, buf', by rw [if_pos hne], hwithin, h.write hwrite, by omega⟩
  · right
    have hzero : ¬ IntegerType.value (rest / IntegerType.ten) ≠ 0 := by omega
    have hlast := Nat.mod_eq_of_lt (not_le.mp hmore)
    rw [digits_of_lt (not_le.mp hmore)] at h
    rw [hlast] at hwrite
    exact ⟨buf', by rw [if_neg hzero], hwithin, h.write hwrite⟩

/-- The loop writes all digits. -/
theorem loop_digitTurn {s : LogStream} (hroom : num2MaxStringLength ≤ s.writablebytes) (num : T) :
    ∃ buf now, loop digitTurn ((IntegerType.value num).natAbs + 1) (num, s.buf, s.cur) = some (buf, now) ∧
      now ≤ smallSize ∧ DigitsBehind s num [] buf now := by
  have hstart : DigitsBehind s num (Http.digits (IntegerType.value num).natAbs) s.buf s.cur :=
    ⟨le_rfl, rfl, by rw [Block.read_self, List.reverse_nil, List.append_nil]⟩
  obtain ⟨⟨buf, now⟩, hloop, hbehind⟩ := @loop_ends _ _ digitTurn
    (fun state => state.2.2 ≤ smallSize ∧
      DigitsBehind s num (Http.digits (IntegerType.value state.1).natAbs) state.2.1 state.2.2)
    (fun result => result.2 ≤ smallSize ∧ DigitsBehind s num [] result.1 result.2)
    (fun state => (IntegerType.value state.1).natAbs)
    (fun ⟨rest, buf, now⟩ ⟨hnow, h⟩ => by
      obtain ⟨rest', buf', hagain, hnow', h', hless⟩ | ⟨buf', hdone, hnow', h'⟩ := digitTurn_step hroom hnow h
      · exact Or.inl ⟨_, hagain, ⟨hnow', h'⟩, hless⟩
      · exact Or.inr ⟨_, hdone, hnow', h'⟩)
    (num, s.buf, s.cur) ⟨s.within, hstart⟩ _ (Nat.lt_succ_self _)
  exact ⟨buf, now, hloop, hbehind⟩

/-- After the sign the text of the number stands behind `cur_` in reverse, with room for the terminator. -/
theorem writeSign_eq {s : LogStream} (hroom : num2MaxStringLength ≤ s.writablebytes) {num : T}
    {buf : Block UInt8 smallSize} {now : ℕ} (hnow : now ≤ smallSize) (h : DigitsBehind s num [] buf now) :
    ∃ buf' now', writeSign num buf now = some (buf', now') ∧ s.cur ≤ now' ∧ now' + 1 ≤ smallSize ∧
      buf'.read 0 s.cur = s.buf.read 0 s.cur ∧ buf'.read s.cur now' =
        (decimal (IntegerType.value num)).reverse := by
  have hbound := h.bound hnow
  have hdigits : buf.read s.cur now = (Http.digits (IntegerType.value num).natAbs).reverse := by
    rw [h.digits, List.nil_append, List.reverse_reverse]
  rw [RawFixedBuffer.writablebytes, num2MaxStringLength] at hroom
  rw [List.length_nil] at hbound
  rw [writeSign]
  split_ifs with hnegative
  · have hfits : now + [minus].length ≤ smallSize := by
      rw [List.length_singleton]
      omega
    obtain ⟨buf', hwrite⟩ := buf.exists_write hfits
    refine ⟨buf', now + 1, by rw [hwrite]; rfl, h.start_le.trans (Nat.le_succ _), by omega,
      (Block.read_before_write hwrite h.start_le).trans h.front, ?_⟩
    have hread : buf'.read s.cur (now + 1) = buf.read s.cur now ++ [minus] :=
      Block.read_through_write hwrite h.start_le
    rw [hread, hdigits, decimal_neg hnegative, List.reverse_cons]
  · have hnatural : ((IntegerType.value num).natAbs : ℤ) = IntegerType.value num := by omega
    refine ⟨buf, now, rfl, h.start_le, by omega, h.front, ?_⟩
    rw [hdigits, ← decimal_natCast, hnatural]

/-- With the reserve free, the text of the number is appended, what stood in the buffer is kept, and
the terminator is inside of the array. -/
theorem formatInteger_eq {s : LogStream} (hroom : num2MaxStringLength ≤ s.writablebytes) (num : T) :
    ∃ s', s.formatInteger num = some s' ∧ s'.data = s.data ++ decimal (IntegerType.value num) ∧
      s'.buf.read 0 s.cur = s.buf.read 0 s.cur ∧ s'.cur + 1 ≤ smallSize ∧ s'.buf.read s'.cur
        (s'.cur + 1) = [0] := by
  obtain ⟨buf₁, now₁, hloop, hnow₁, hbehind⟩ := loop_digitTurn hroom num
  obtain ⟨buf₂, now, hsign, hstart, hnow, hfront, htext⟩ := writeSign_eq hroom hnow₁ hbehind
  have hend : s.cur + (now - s.cur) = now := Nat.add_sub_cancel' hstart
  have hlength : (buf₂.read s.cur now).reverse.length = now - s.cur := by
    rw [List.length_reverse, buf₂.length_read _ ((Nat.le_succ _).trans hnow)]
  obtain ⟨buf₃, hterminate⟩ := @Block.exists_write _ _ buf₂ now [0] hnow
  have hsame : buf₃.read s.cur now = buf₂.read s.cur now := Block.read_before_write hterminate le_rfl
  have hfits : s.cur + (buf₃.read s.cur now).reverse.length ≤ smallSize := by
    rw [hsame, hlength]
    omega
  obtain ⟨buf₄, hreverse⟩ := buf₃.exists_write hfits
  have hadd : s.cur + (now - s.cur) ≤ smallSize := by omega
  refine ⟨⟨buf₄, s.cur + (now - s.cur), hadd⟩, ?_, ?_, ?_, ?_, ?_⟩
  · rw [formatInteger, if_pos hroom]
    simp only [hloop, hsign, hterminate, hreverse, Option.bind_eq_bind, Option.bind_some]
    exact dif_pos hadd
  · have hread := Block.read_through_write hreverse (Nat.zero_le _)
    rw [hsame, hlength, hend, htext, List.reverse_reverse, Block.read_before_write hterminate hstart,
      hfront] at hread
    change buf₄.read 0 (s.cur + (now - s.cur)) = _
    rw [hend]
    exact hread
  · exact (Block.read_before_write hreverse le_rfl).trans ((Block.read_before_write hterminate hstart).trans hfront)
  · change s.cur + (now - s.cur) + 1 ≤ smallSize
    omega
  · change buf₄.read (s.cur + (now - s.cur)) (s.cur + (now - s.cur) + 1) = [0]
    rw [hend, Block.read_behind_write hreverse (by rw [hsame, hlength]; omega)]
    exact Block.read_of_write hterminate

/-- Without the reserve nothing is written. -/
theorem formatInteger_of_full {s : LogStream} (h : s.writablebytes < num2MaxStringLength) (num : T) :
    s.formatInteger num = some s :=
  if_neg (not_le.mpr h)

end

end LogStream

/-- The text is the number in decimal, with a sign only if it is negative and without a zero in front. -/
structure CanonicalNumeral (text : Bytes) (n : ℤ) : Prop where
  reads : readDecimal text = some n
  signed : text.head? = some minus ↔ n < 0
  leads : (text.dropWhile (· = minus)).head? = some 48 → text = [48]

/-- The text written by `%d` is the canonical one. -/
theorem canonicalNumeral_decimal (n : ℤ) : CanonicalNumeral (decimal n) n := by
  have hdigit {digit : UInt8} {m : ℕ} (h : (Http.digits m).head? = some digit) : digit ≠ minus := by
    rintro rfl
    exact Http.notMem_digits (by decide) m (List.mem_of_mem_head? h)
  have hbare (m : ℕ) : (Http.digits m).dropWhile (· = minus) = Http.digits m := by
    cases hdigits : Http.digits m with
    | nil => rfl
    | cons first rest =>
      have hfirst : first ≠ minus := hdigit (congrArg List.head? hdigits)
      exact List.dropWhile_cons_of_neg (by simpa using hfirst)
  refine ⟨readDecimal_decimal n, ?_, fun hzero => ?_⟩
  · rcases Int.lt_or_le n 0 with hneg | hpos
    · exact iff_of_true (congrArg List.head? (decimal_neg hneg)) hneg
    · obtain ⟨m, rfl⟩ := Int.eq_ofNat_of_zero_le hpos
      rw [decimal_natCast]
      exact iff_of_false (fun hhead => hdigit hhead rfl) (Int.not_lt.mpr hpos)
  · rcases Int.lt_or_le n 0 with hneg | hpos
    · rw [decimal_neg hneg, List.dropWhile_cons_of_pos (by simp), hbare] at hzero
      have habs := head_digits hzero
      omega
    · obtain ⟨m, rfl⟩ := Int.eq_ofNat_of_zero_le hpos
      rw [decimal_natCast, hbare] at hzero
      rw [decimal_natCast, head_digits hzero]
      rfl

namespace LogStream

variable {T : Type} [IntegerType T]

/-- With the reserve free, `FormatInteger` appends the canonical numeral of its argument, keeps the bytes
in front of it, and writes the terminator inside of the array. -/
theorem formatInteger_canonical {s : LogStream} (hroom : num2MaxStringLength ≤ s.writablebytes) (num : T) :
    CanonicalNumeral (decimal (IntegerType.value num)) (IntegerType.value num) ∧
      ∃ s', s.formatInteger num = some s' ∧ s'.data = s.data ++ decimal (IntegerType.value num) ∧
        s'.buf.read 0 s.cur = s.buf.read 0 s.cur ∧ s'.cur + 1 ≤ smallSize ∧ s'.buf.read s'.cur (s'.cur + 1) = [0] :=
  ⟨canonicalNumeral_decimal _, formatInteger_eq hroom num⟩

/-- The most negative `long` in a new stream whose array held other bytes. -/
theorem formatInteger_canonical_minValue :
    ∃ s' : LogStream, formatInteger (.new ⟨List.replicate smallSize 7, List.length_replicate⟩) Int64.minValue =
      some s' ∧
      s'.data = ascii "-9223372036854775808" ∧ s'.buf.read s'.cur (s'.cur + 1) = [0] := by
  have hroom : num2MaxStringLength ≤
      (RawFixedBuffer.new ⟨List.replicate smallSize 7, List.length_replicate⟩ : LogStream).writablebytes := by
        decide
  obtain ⟨-, s', hformat, hdata, -, -, hterminator⟩ := formatInteger_canonical hroom Int64.minValue
  exact ⟨s', hformat, hdata.trans (by decide +kernel), hterminator⟩

end LogStream

end WebServer.Log
