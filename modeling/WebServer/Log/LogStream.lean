import WebServer.Foundation.Run
import WebServer.Log.FormatInteger
import WebServer.Util.IntBuffer

/-!
# Insertions into a `LogStream`

Every overload of `operator<<` ends in `FormatInteger` or in `Append`. The first leaves an integer out
when fewer than `kNum2MaxStringLength` bytes are free, the second cuts a text to the space left. On
the content of the buffer both are functions of what is inserted.
-/

namespace WebServer.Log

open WebServer.Foundation
open WebServer.Util (Bytes ascii wrap wrap_eq)
open WebServer.Http (decimal readDecimal_decimal)

/-- An argument of `operator<<`. A floating-point number is given by what `%g` writes for it into an
array of 32 characters, and a C string by its characters up to the terminator. -/
inductive Insertion where
  | short (num : Int16)
  | unsignedShort (num : UInt16)
  | int (num : Int32)
  | unsignedInt (num : UInt32)
  | long (num : Int64)
  | unsignedLong (num : UInt64)
  | longLong (num : Int64)
  | unsignedLongLong (num : UInt64)
  | real (text : { text : Bytes // text.length < 32 })
  | bool (boolean : Bool)
  | char (chr : UInt8)
  | pointer (data : Bytes)
  | cString (data : Bytes)
  | generalTemplate (data : Bytes) (len : ℤ)
  | string (str : Bytes)

/-- `operator<<`. -/
def LogStream.insert (s : LogStream) : Insertion → Option LogStream
  | .short num => s.formatInteger num.toInt32
  | .unsignedShort num => s.formatInteger num.toUInt32
  | .int num => s.formatInteger num
  | .unsignedInt num => s.formatInteger num
  | .long num => s.formatInteger num
  | .unsignedLong num => s.formatInteger num
  | .longLong num => s.formatInteger num
  | .unsignedLongLong num => s.formatInteger num
  | .real text => s.append text.val text.val.length
  | .bool boolean => s.formatInteger (if boolean then (1 : Int32) else 0)
  | .char chr => s.append [chr] 1
  | .pointer data => s.append data (wrap data.length)
  | .cString data => s.append data (wrap data.length)
  | .generalTemplate data len => s.append data len
  | .string str => s.append str (wrap str.length)

/-- What reaches the buffer: an integer, or some characters with the length they are said to have. -/
inductive Piece where
  | number (n : ℤ)
  | text (data : Bytes) (len : ℤ)

namespace Insertion

/-- What an insertion passes to the buffer. -/
def piece : Insertion → Piece
  | short num => .number num.toInt
  | unsignedShort num => .number num.toNat
  | int num => .number num.toInt
  | unsignedInt num => .number num.toNat
  | long num => .number num.toInt
  | unsignedLong num => .number num.toNat
  | longLong num => .number num.toInt
  | unsignedLongLong num => .number num.toNat
  | real text => .text text.val text.val.length
  | bool boolean => .number (if boolean then 1 else 0)
  | char chr => .text [chr] 1
  | pointer data => .text data (wrap data.length)
  | cString data => .text data (wrap data.length)
  | generalTemplate data len => .text data len
  | string str => .text str (wrap str.length)

end Insertion

namespace FixedBuffer

variable {size : ℕ}

/-- What `FormatInteger` does to the content. -/
def appendInteger (b : FixedBuffer size) (n : ℤ) : FixedBuffer size :=
  if num2MaxStringLength ≤ b.writablebytes then b.append (decimal n) else b

/-- No integer is added to a full buffer. -/
theorem appendInteger_of_full {b : FixedBuffer size} (h : b.writablebytes = 0) (n : ℤ) : b.appendInteger n = b :=
  if_neg (by rw [h]; decide)

/-- An `int` leaves room for another character. -/
theorem room_appendInteger {b : FixedBuffer size} (h : 0 < b.writablebytes) {n : ℤ}
    (hn : -2147483648 ≤ n ∧ n < 2147483648) : 0 < (b.appendInteger n).writablebytes := by
  have hlength := Http.length_decimal_le hn
  rw [appendInteger]
  split_ifs with hroom
  · rw [writablebytes_append]
    rw [num2MaxStringLength] at hroom
    omega
  · exact h

/-- What an insertion does to the content. -/
def insert (b : FixedBuffer size) : Piece → Option (FixedBuffer size)
  | .number n => some (b.appendInteger n)
  | .text data len => b.appendSome data len

end FixedBuffer

namespace LogStream

/-- `FormatInteger` on the array is `FormatInteger` on its content. -/
theorem content_formatInteger {T : Type} [IntegerType T] (s : LogStream) (num : T) :
    (s.formatInteger num).map RawFixedBuffer.content = some (s.content.appendInteger (IntegerType.value num)) := by
  rw [FixedBuffer.appendInteger, RawFixedBuffer.writablebytes_content]
  split_ifs with hroom
  · obtain ⟨s', hformat, hdata, -, hwithin, -⟩ := formatInteger_eq hroom num
    have hlength := congrArg List.length hdata
    rw [List.length_append, RawFixedBuffer.length_data, RawFixedBuffer.length_data] at hlength
    have hfits : (decimal (IntegerType.value num)).length ≤ s.content.writablebytes := by
      rw [RawFixedBuffer.writablebytes_content, RawFixedBuffer.writablebytes]
      omega
    rw [hformat, Option.map_some, Option.some.injEq]
    ext1
    exact hdata.trans (FixedBuffer.data_append hfits).symm
  · rw [formatInteger_of_full (not_le.mp hroom), Option.map_some]

/-- An insertion on the array is one on its content. -/
theorem content_insert (s : LogStream) (insertion : Insertion) :
    (s.insert insertion).map RawFixedBuffer.content = s.content.insert insertion.piece := by
  cases insertion with
  | short num =>
    have hvalue : IntegerType.value num.toInt32 = num.toInt := Int16.toInt_toInt32 num
    rw [Insertion.piece, ← hvalue]
    exact content_formatInteger s num.toInt32
  | unsignedShort num => exact content_formatInteger s num.toUInt32
  | int num => exact content_formatInteger s num
  | unsignedInt num => exact content_formatInteger s num
  | long num => exact content_formatInteger s num
  | unsignedLong num => exact content_formatInteger s num
  | longLong num => exact content_formatInteger s num
  | unsignedLongLong num => exact content_formatInteger s num
  | real text => exact RawFixedBuffer.content_append s text.val text.val.length
  | bool boolean =>
    cases boolean with
    | false => exact content_formatInteger s (0 : Int32)
    | true => exact content_formatInteger s (1 : Int32)
  | char chr => exact RawFixedBuffer.content_append s [chr] 1
  | pointer data => exact RawFixedBuffer.content_append s data (wrap data.length)
  | cString data => exact RawFixedBuffer.content_append s data (wrap data.length)
  | generalTemplate data len => exact RawFixedBuffer.content_append s data len
  | string str => exact RawFixedBuffer.content_append s str (wrap str.length)

/-- A sequence of insertions on the array is one on its content. -/
theorem content_run (s : LogStream) (insertions : List Insertion) :
    (run insert s insertions).map RawFixedBuffer.content =
      run FixedBuffer.insert s.content (insertions.map Insertion.piece) :=
  run_map content_insert s insertions

end LogStream

namespace Insertion

/-- The value of an integer. -/
def number? (insertion : Insertion) : Option ℤ :=
  match insertion.piece with
  | .number n => some n
  | .text _ _ => none

/-- The textual rendering of an insertion. -/
def rendering : Insertion → Bytes
  | real text => text.val
  | char chr => [chr]
  | pointer data => data
  | cString data => data
  | generalTemplate data len => data.take len.toNat
  | string str => str
  | short num => decimal num.toInt
  | unsignedShort num => decimal num.toNat
  | int num => decimal num.toInt
  | unsignedInt num => decimal num.toNat
  | long num => decimal num.toInt
  | unsignedLong num => decimal num.toNat
  | longLong num => decimal num.toInt
  | unsignedLongLong num => decimal num.toNat
  | bool boolean => decimal (if boolean then 1 else 0)

/-- The length of a `GeneralTemplate` is one that its data has. -/
def Readable : Insertion → Prop
  | generalTemplate data len => 0 ≤ len ∧ len ≤ data.length
  | _ => True

/-- An integer is rendered as its numeral. -/
theorem rendering_of_number {insertion : Insertion} {n : ℤ} (h : insertion.piece = .number n) :
    insertion.rendering = decimal n := by
  cases insertion <;> cases h <;> rfl

/-- A text is rendered as the characters it passes to the buffer, which can all be read. -/
theorem rendering_of_text {insertion : Insertion} (hreadable : insertion.Readable)
    (hshort : insertion.rendering.length < 2147483648) {data : Bytes} {len : ℤ}
    (h : insertion.piece = .text data len) :
    0 ≤ len ∧ len ≤ data.length ∧ insertion.rendering = data.take len.toNat := by
  have hwhole (data : Bytes) (h : data.length < 2147483648) :
      0 ≤ wrap data.length ∧ wrap data.length ≤ data.length ∧ data = data.take (wrap data.length).toNat := by
    rw [wrap_eq (by omega) (by omega), Int.toNat_natCast, List.take_length]
    exact ⟨by omega, le_rfl, rfl⟩
  cases insertion with
  | real text =>
    cases h
    exact ⟨by omega, le_rfl, (List.take_length).symm⟩
  | char chr =>
    cases h
    exact ⟨by decide, le_rfl, rfl⟩
  | pointer data =>
    cases h
    exact hwhole data hshort
  | cString data =>
    cases h
    exact hwhole data hshort
  | generalTemplate data len =>
    cases h
    exact ⟨hreadable.1, hreadable.2, rfl⟩
  | string str =>
    cases h
    exact hwhole data hshort
  | _ => cases h

/-- An insertion is left out if it is an integer and the reserve is not free. -/
def LeftOut (free : ℕ) (insertion : Insertion) : Prop := insertion.number?.isSome ∧ free < num2MaxStringLength

instance (free : ℕ) (insertion : Insertion) : Decidable (LeftOut free insertion) :=
    inferInstanceAs (Decidable (_ ∧ _))

/-- An insertion whose rendering fits appends the rendering, unless it is left out. -/
theorem exists_insert {size : ℕ} (hsize : size < 2147483648) (b : FixedBuffer size) {insertion : Insertion}
    (hreadable : insertion.Readable) (hfits : insertion.rendering.length ≤ b.writablebytes) :
    ∃ b', b.insert insertion.piece = some b' ∧
      b'.data = b.data ++ if insertion.LeftOut b.writablebytes then [] else insertion.rendering := by
  have hfree : b.writablebytes ≤ size := Nat.sub_le _ _
  cases hpiece : insertion.piece with
  | number n =>
    have htext := rendering_of_number hpiece
    refine ⟨b.appendInteger n, rfl, ?_⟩
    have hinteger : insertion.number?.isSome := by rw [number?, hpiece]; rfl
    rw [FixedBuffer.appendInteger]
    split_ifs with hroom hout hout
    · exact absurd hout.2 (not_lt.mpr hroom)
    · rw [FixedBuffer.data_append (htext ▸ hfits), htext]
    · rw [List.append_nil]
    · exact absurd ⟨hinteger, not_le.mp hroom⟩ hout
  | text data len =>
    obtain ⟨hnonneg, hlen, htext⟩ := rendering_of_text hreadable (by omega) hpiece
    have htake : (data.take len.toNat).length ≤ b.writablebytes := htext ▸ hfits
    have hinteger : ¬ insertion.LeftOut b.writablebytes := by
      rintro ⟨hnumber, -⟩
      rw [number?, hpiece] at hnumber
      cases hnumber
    refine ⟨b.append (data.take len.toNat), b.appendSome_of_readable hnonneg hlen, ?_⟩
    rw [FixedBuffer.data_append htake, if_neg hinteger, htext]

/-- What a sequence of insertions adds to a buffer with the given number of free bytes, when there is
room for everything: the renderings of those that are not left out. -/
def keptText : ℕ → List Insertion → Bytes
  | _, [] => []
  | free, insertion :: rest =>
    if insertion.LeftOut free then keptText free rest
    else insertion.rendering ++ keptText (free - insertion.rendering.length) rest

/-- A sequence of insertions whose renderings fit adds those that are not left out. -/
theorem exists_run_insert {size : ℕ} (hsize : size < 2147483648) (b : FixedBuffer size)
    {insertions : List Insertion}
    (hreadable : ∀ insertion ∈ insertions, insertion.Readable)
    (hfits : (insertions.flatMap rendering).length ≤ b.writablebytes) :
    ∃ b', run FixedBuffer.insert b (insertions.map piece) = some b' ∧
      b'.data = b.data ++ keptText b.writablebytes insertions := by
  induction insertions generalizing b with
  | nil => exact ⟨b, rfl, (List.append_nil _).symm⟩
  | cons insertion rest ih =>
    obtain ⟨hfirst, hlater⟩ := List.forall_mem_cons.mp hreadable
    rw [List.flatMap_cons, List.length_append] at hfits
    obtain ⟨b₁, hinsert, hdata⟩ := exists_insert hsize b hfirst (by omega)
    have hlength := congrArg List.length hdata
    rw [List.length_append] at hlength
    have hfree₁ : b₁.writablebytes =
        b.writablebytes - (if insertion.LeftOut b.writablebytes then [] else insertion.rendering).length := by
      change size - b₁.data.length = size - b.data.length - _
      rw [hlength, Nat.sub_sub]
    have hroom : (rest.flatMap rendering).length ≤ b₁.writablebytes := by
      rw [hfree₁]
      split_ifs
      · rw [List.length_nil]
        omega
      · omega
    obtain ⟨b', hrest, hdata'⟩ := ih b₁ hlater hroom
    refine ⟨b', run_cons_eq_some.mpr ⟨b₁, hinsert, hrest⟩, ?_⟩
    rw [hdata', hdata, hfree₁, keptText, List.append_assoc]
    split_ifs
    · rfl
    · rfl

/-- A numeral is not empty. -/
theorem rendering_ne_nil {insertion : Insertion} (h : insertion.number?.isSome) : insertion.rendering ≠ [] := by
  cases hpiece : insertion.piece with
  | number n =>
    intro hempty
    have hread := readDecimal_decimal n
    rw [← rendering_of_number hpiece, hempty] at hread
    cases hread
  | text data len =>
    rw [number?, hpiece] at h
    cases h

/-- No more is kept than was inserted. -/
theorem length_keptText_le (free : ℕ) (insertions : List Insertion) :
    (keptText free insertions).length ≤ (insertions.flatMap rendering).length := by
  induction insertions generalizing free with
  | nil => exact le_rfl
  | cons insertion rest ih =>
    rw [keptText, List.flatMap_cons, List.length_append]
    split_ifs with hout
    · exact (ih free).trans (Nat.le_add_left _ _)
    · rw [List.length_append]
      exact Nat.add_le_add_left (ih _) _

/-- Nothing is left out exactly if the reserve is free in front of every integer. -/
theorem keptText_eq_iff (free : ℕ) (insertions : List Insertion) :
    keptText free insertions = insertions.flatMap rendering ↔
      ∀ first insertion rest, insertions = first ++ insertion :: rest → insertion.number?.isSome →
        (first.flatMap rendering).length + num2MaxStringLength ≤ free := by
  induction insertions generalizing free with
  | nil => exact iff_of_true rfl fun first insertion rest h => by simp at h
  | cons insertion rest ih =>
    have hpos : 0 < num2MaxStringLength := by decide
    rw [keptText, List.flatMap_cons]
    split_ifs with hout
    · refine iff_of_false (fun hsame => ?_) fun hearly => ?_
      · have hlength := congrArg List.length hsame
        have hsome := List.length_pos_of_ne_nil (rendering_ne_nil hout.1)
        have hless := length_keptText_le free rest
        rw [List.length_append] at hlength
        omega
      · have hroom := hearly [] insertion rest rfl hout.1
        exact absurd hout.2 (by simpa using hroom)
    · rw [List.append_cancel_left_eq, ih]
      constructor
      · intro hlater first other others hsplit hinteger
        cases first with
        | nil =>
          obtain ⟨rfl, -⟩ := List.cons.inj hsplit
          have hroom : ¬ free < num2MaxStringLength := fun hless => hout ⟨hinteger, hless⟩
          simpa using hroom
        | cons _ first =>
          obtain ⟨rfl, rfl⟩ := List.cons.inj hsplit
          have hroom := hlater first other others rfl hinteger
          rw [List.flatMap_cons, List.length_append]
          omega
      · intro hearly first other others hsplit hinteger
        have hroom := hearly (insertion :: first) other others (hsplit ▸ rfl) hinteger
        rw [List.flatMap_cons, List.length_append] at hroom
        omega

/-- Texts are all kept. -/
theorem keptText_of_texts (free : ℕ) {insertions : List Insertion}
    (h : ∀ insertion ∈ insertions, insertion.number? = none) :
      keptText free insertions = insertions.flatMap rendering := by
  refine (keptText_eq_iff free insertions).mpr fun first insertion rest hsplit hinteger => ?_
  have hnone : insertion.number? = none := h insertion (hsplit ▸ List.mem_append_cons_self)
  rw [hnone] at hinteger
  cases hinteger

end Insertion

namespace LogStream

/-- Insertions whose renderings fit leave their renderings in the buffer, but for the integers that
find fewer than `kNum2MaxStringLength` bytes free. -/
theorem data_run_insert (buf : Block UInt8 smallSize) {insertions : List Insertion}
    (hreadable : ∀ insertion ∈ insertions, insertion.Readable)
    (hfits : (insertions.flatMap Insertion.rendering).length ≤ smallSize) :
    ∃ s, run insert (.new buf) insertions = some s ∧ s.data = Insertion.keptText smallSize insertions := by
  obtain ⟨b, hrun, hdata⟩ := Insertion.exists_run_insert (by decide) (.new : FixedBuffer smallSize) hreadable hfits
  have hcontent := content_run (.new buf) insertions
  rw [RawFixedBuffer.content_new, hrun] at hcontent
  obtain ⟨s, hs, hb⟩ := Option.map_eq_some_iff.mp hcontent
  exact ⟨s, hs, (congrArg FixedBuffer.data hb).trans hdata⟩

/-- A record that fits is in the buffer but for the integers that find fewer than
`kNum2MaxStringLength` bytes free, so it is there in full exactly if every integer comes early. -/
theorem data_run_insert_iff (buf : Block UInt8 smallSize) {insertions : List Insertion}
    (hreadable : ∀ insertion ∈ insertions, insertion.Readable)
    (hfits : (insertions.flatMap Insertion.rendering).length ≤ smallSize) :
    ∃ s, run insert (.new buf) insertions = some s ∧ s.data = Insertion.keptText smallSize insertions ∧
      (s.data = insertions.flatMap Insertion.rendering ↔
        ∀ first insertion rest, insertions = first ++ insertion :: rest → insertion.number?.isSome →
          (first.flatMap Insertion.rendering).length + num2MaxStringLength ≤ smallSize) := by
  obtain ⟨s, hrun, hdata⟩ := data_run_insert buf hreadable hfits
  exact ⟨s, hrun, hdata, hdata ▸ Insertion.keptText_eq_iff smallSize insertions⟩

/-- A short record with an integer. -/
theorem data_run_insert_iff_short : ∃ s, run insert (.new ⟨List.replicate smallSize 7, List.length_replicate⟩)
      [.cString (ascii "fd "), .int (-12), .char 46] = some s ∧ s.data = ascii "fd -12." := by
  obtain ⟨s, hrun, hdata, -⟩ := @data_run_insert_iff ⟨List.replicate smallSize 7, List.length_replicate⟩
    [.cString (ascii "fd "), .int (-12), .char 46] (by simp [Insertion.Readable]) (by decide +kernel)
  exact ⟨s, hrun, hdata.trans (by decide +kernel)⟩

/-- An integer behind 4090 characters is left out although its five digits fit. -/
theorem not_data_run_insert_late : ∃ s, run insert (.new ⟨List.replicate smallSize 7, List.length_replicate⟩)
      [.string (List.replicate 4090 97), .int 12345] = some s ∧
    ([.string (List.replicate 4090 97), .int 12345].flatMap Insertion.rendering).length = 4095 ∧
      s.data = List.replicate 4090 97 ∧
        s.data ≠ [.string (List.replicate 4090 97), .int 12345].flatMap Insertion.rendering := by
  generalize htext : List.replicate 4090 (97 : UInt8) = text
  have hlength : text.length = 4090 := htext ▸ List.length_replicate
  have hnumeral : (Insertion.int 12345).rendering.length = 5 := by decide +kernel
  have hrendering : [Insertion.string text, .int 12345].flatMap Insertion.rendering =
      text ++ (Insertion.int 12345).rendering := by
    rw [List.flatMap_cons, List.flatMap_singleton, Insertion.rendering]
  have htotal : ([Insertion.string text, .int 12345].flatMap Insertion.rendering).length = 4095 := by
    rw [hrendering, List.length_append, hlength, hnumeral]
  have hkept : Insertion.keptText smallSize [.string text, .int 12345] = text := by
    have hlate : (Insertion.int 12345).LeftOut (smallSize - text.length) := ⟨rfl, by rw [hlength]; decide⟩
    have hstring : ¬ (Insertion.string text).LeftOut smallSize := fun hout => Bool.false_ne_true hout.1
    rw [Insertion.keptText, if_neg hstring, Insertion.keptText, Insertion.rendering, if_pos hlate,
      Insertion.keptText,
      List.append_nil]
  obtain ⟨s, hrun, hdata⟩ := @data_run_insert ⟨List.replicate smallSize 7, List.length_replicate⟩
    [.string text, .int 12345] (by simp [Insertion.Readable]) (htotal.trans_le (by decide))
  refine ⟨s, hrun, htotal, hdata.trans hkept, fun hfull => ?_⟩
  have hsame := congrArg List.length (hkept.symm.trans (hdata.symm.trans hfull))
  omega

end LogStream

end WebServer.Log
