import WebServer.Http.Response

/-!
# Reading decimal numbers

`readDecimal` reads what `%d` and `%zd` write. A number of at most ten digits fits the array
of 32 characters together with the fixed texts around it, so `snprintf` does not cut it off.
-/

namespace WebServer.Http

open WebServer.Util (Bytes ascii)

/-- The character `'-'`. -/
def minus : UInt8 := 45

/-- Read a number without a sign. -/
def readDigits (text : Bytes) : Option ℕ :=
  if text ≠ [] ∧ text.all fun digit => 48 ≤ digit.toNat ∧ digit.toNat ≤ 57 then
    some (text.foldl (fun value digit => 10 * value + (digit.toNat - 48)) 0)
  else none

/-- Read a number with an optional sign. -/
def readDecimal : Bytes → Option ℤ
  | [] => none
  | first :: rest =>
    if first = minus then (readDigits rest).map fun value : ℕ => -(value : ℤ)
    else (readDigits (first :: rest)).map fun value : ℕ => (value : ℤ)

/-- The digits of a number, as bytes. -/
def digits (n : ℕ) : Bytes := (Nat.toDigits 10 n).map fun c => UInt8.ofNat c.toNat

/-- The byte of a digit character has its value. -/
theorem toNat_digit {c : Char} (h : c.isDigit) :
    (UInt8.ofNat c.toNat).toNat = c.toNat ∧ 48 ≤ c.toNat ∧ c.toNat ≤ 57 := by
  have hbounds : 48 ≤ c.toNat ∧ c.toNat ≤ 57 := Char.isDigit_iff_toNat.mp h
  refine ⟨?_, hbounds⟩
  rw [UInt8.toNat_ofNat']
  omega

/-- The digits of a number are digit characters. -/
theorem digit_bounds {n : ℕ} {digit : UInt8} (h : digit ∈ digits n) : 48 ≤ digit.toNat ∧ digit.toNat ≤ 57 := by
  obtain ⟨c, hc, rfl⟩ := List.mem_map.mp h
  obtain ⟨hvalue, hbounds⟩ := toNat_digit (Nat.isDigit_of_mem_toDigits (by decide) (by decide) hc)
  rw [hvalue]
  exact hbounds

/-- A character that is no digit is not among the digits of a number. -/
theorem notMem_digits {digit : UInt8} (h : ¬ (48 ≤ digit.toNat ∧ digit.toNat ≤ 57)) (n : ℕ) : digit ∉ digits n :=
  fun hmem => h (digit_bounds hmem)

/-- The byte of a digit. -/
def digitByte (digit : ℕ) : UInt8 := UInt8.ofNat digit.digitChar.toNat

/-- A number below ten is written as its digit. -/
theorem digits_of_lt {n : ℕ} (h : n < 10) : digits n = [digitByte n] := by
  rw [digits, Nat.toDigits_of_lt_base h]
  rfl

/-- The last digit of a larger number comes off at the end. -/
theorem digits_of_le {n : ℕ} (h : 10 ≤ n) : digits n = digits (n / 10) ++ [digitByte (n % 10)] := by
  rw [digits, Nat.toDigits_of_base_le (by decide) h, List.map_append]
  rfl

/-- Only zero is written with a zero in front. -/
theorem head_digits {n : ℕ} (h : (digits n).head? = some 48) : n = 0 := by
  induction n using Nat.strongRecOn with
  | ind n ih =>
    by_cases hlt : n < 10
    · rw [digits_of_lt hlt, List.head?_cons, Option.some.injEq] at h
      have hzero : ∀ digit : Fin 10, digitByte digit = 48 → digit.val = 0 := by decide
      exact hzero ⟨n, hlt⟩ h
    · have hshort : n / 10 < n := by omega
      have hfirst : (digits (n / 10)).head? = some 48 := by
        rw [digits_of_le (not_lt.mp hlt), List.head?_append] at h
        cases hdigits : digits (n / 10) with
        | nil => simp [digits] at hdigits
        | cons first rest => simpa [hdigits] using h
      have hzero := ih (n / 10) hshort hfirst
      omega

/-- Reading the digits of a number gives the number. -/
theorem readDigits_digits (n : ℕ) : readDigits (digits n) = some n := by
  have hnonempty : digits n ≠ [] := by simp [digits]
  have hall : (digits n).all fun digit => 48 ≤ digit.toNat ∧ digit.toNat ≤ 57 :=
    List.all_eq_true.mpr fun digit h => decide_eq_true (digit_bounds h)
  rw [readDigits, if_pos ⟨hnonempty, hall⟩]
  have hvalue (l : List Char) (hl : ∀ c ∈ l, c.isDigit) (init : ℕ) :
      (l.map fun c => UInt8.ofNat c.toNat).foldl (fun value digit => 10 * value + (digit.toNat - 48)) init =
        Nat.ofDigitChars 10 l init := by
    induction l generalizing init with
    | nil => rfl
    | cons c l ih =>
      obtain ⟨hc, hl⟩ := List.forall_mem_cons.mp hl
      rw [List.map_cons, List.foldl_cons, (toNat_digit hc).1, ih hl]
      rfl
  rw [digits, hvalue _ fun c hc => Nat.isDigit_of_mem_toDigits (by decide) (by decide) hc,
    Nat.ofDigitChars_ten_toDigits]

/-- A number without a sign is written as its digits. -/
theorem decimal_natCast (n : ℕ) : decimal n = digits n := by
  have hrepr : (toString (n : ℤ)).toList = Nat.toDigits 10 n := by simp [Int.repr_eq_if]
  rw [decimal, ascii, hrepr, digits]

/-- A negative number is written as its sign and the digits of its absolute value. -/
theorem decimal_neg {n : ℤ} (h : n < 0) : decimal n = minus :: digits n.natAbs := by
  have habs : (-n).toNat = n.natAbs := by omega
  have hrepr : (toString n).toList = '-' :: Nat.toDigits 10 n.natAbs := by
    simp [Int.repr_eq_if, Int.not_le.mpr h, habs]
  rw [decimal, ascii, hrepr, digits]
  rfl

/-- Reading what `%d` writes gives the number. -/
theorem readDecimal_decimal (n : ℤ) : readDecimal (decimal n) = some n := by
  rcases Int.lt_or_le n 0 with hneg | hpos
  · rw [decimal_neg hneg, readDecimal, if_pos rfl, readDigits_digits, Option.map_some,
      Int.ofNat_natAbs_of_nonpos hneg.le,
      Int.neg_neg]
  · obtain ⟨m, rfl⟩ := Int.eq_ofNat_of_zero_le hpos
    rw [decimal_natCast]
    have hread := readDigits_digits m
    cases hdigits : digits m with
    | nil => simp [digits] at hdigits
    | cons first rest =>
      have hfirst : first ≠ minus := by
        rintro rfl
        have hminus : minus ∉ digits m := notMem_digits (by decide) m
        exact hminus (hdigits ▸ List.mem_cons_self)
      rw [readDecimal, if_neg hfirst, ← hdigits, hread]
      rfl

/-- A character that is neither a digit nor the sign is not part of a written number. -/
theorem notMem_decimal {digit : UInt8} (hdigit : ¬ (48 ≤ digit.toNat ∧ digit.toNat ≤ 57)) (hminus : digit ≠ minus)
    (n : ℤ) : digit ∉ decimal n := by
  rcases Int.lt_or_le n 0 with hneg | hpos
  · rw [decimal_neg hneg, List.mem_cons, not_or]
    exact ⟨hminus, notMem_digits hdigit _⟩
  · obtain ⟨m, rfl⟩ := Int.eq_ofNat_of_zero_le hpos
    rw [decimal_natCast]
    exact notMem_digits hdigit m

/-- A number below a power of ten has at most as many digits as the exponent says. -/
theorem length_digits_le {n k : ℕ} (hk : 0 < k) (h : n < 10 ^ k) : (digits n).length ≤ k := by
  rw [digits, List.length_map]
  exact (Nat.length_toDigits_le_iff (by decide) hk).mpr h

/-- A written `int` has at most eleven characters. -/
theorem length_decimal_le {n : ℤ} (h : -2147483648 ≤ n ∧ n < 2147483648) : (decimal n).length ≤ 11 := by
  rcases Int.lt_or_le n 0 with hneg | hpos
  · rw [decimal_neg hneg, List.length_cons]
    exact Nat.succ_le_succ (length_digits_le (by decide) (by omega))
  · obtain ⟨m, rfl⟩ := Int.eq_ofNat_of_zero_le hpos
    rw [decimal_natCast]
    exact (length_digits_le (k := 10) (by decide) (by omega)).trans (by decide)

end WebServer.Http
