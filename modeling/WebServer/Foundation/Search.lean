import Mathlib.Data.List.Basic
import Mathlib.Data.List.Infix
import Mathlib.Tactic.Common

/-!
# First occurrence of a pattern in a sequence

`searchIdx` is the position at which a nonempty pattern first stands in a sequence, and
`none` when it does not occur. A position once found is not affected by what is appended
behind the sequence. For a two-element terminator with distinct elements the search on a
terminated line stops exactly at the end of the line, whatever follows it.
-/

namespace WebServer.Foundation

variable {α : Type*} [DecidableEq α]

/-- The first position where the pattern stands. -/
def searchIdx (pattern : List α) : List α → Option ℕ
  | [] => none
  | a :: rest => if pattern.isPrefixOf (a :: rest) then some 0 else (searchIdx pattern rest).map (· + 1)

/-- The pattern is found at the first element if it stands there, and behind it otherwise. -/
theorem searchIdx_cons_eq_some {pattern rest : List α} {a : α} {k : ℕ} :
    searchIdx pattern (a :: rest) = some k ↔ pattern <+: a :: rest ∧ k = 0 ∨
      ¬ pattern <+: a :: rest ∧ ∃ j, searchIdx pattern rest = some j ∧ k = j + 1 := by
  rw [searchIdx]
  split
  · next hp => simp [List.isPrefixOf_iff_prefix.mp hp, eq_comm]
  · next hp =>
    have hnot : ¬ pattern <+: a :: rest := fun hpre => hp (List.isPrefixOf_iff_prefix.mpr hpre)
    simp only [Option.map_eq_some_iff, hnot, false_and, false_or, not_false_eq_true, true_and]
    exact exists_congr fun j => and_congr_right fun _ => eq_comm

/-- The pattern stands at the position found. -/
theorem searchIdx_standsAt {pattern l : List α} {k : ℕ} (h : searchIdx pattern l = some k) :
    pattern <+: l.drop k := by
  induction l generalizing k with
  | nil => simp [searchIdx] at h
  | cons a rest ih =>
    rcases searchIdx_cons_eq_some.mp h with ⟨hp, rfl⟩ | ⟨-, j, hj, rfl⟩
    · exact hp
    · exact ih hj

/-- The pattern found lies inside the sequence. -/
theorem searchIdx_bound {pattern l : List α} {k : ℕ} (h : searchIdx pattern l = some k) :
    k < l.length ∧ k + pattern.length ≤ l.length := by
  have hk : k < l.length := by
    induction l generalizing k with
    | nil => simp [searchIdx] at h
    | cons a rest ih =>
      rcases searchIdx_cons_eq_some.mp h with ⟨-, rfl⟩ | ⟨-, j, hj, rfl⟩
      · exact Nat.succ_pos _
      · exact Nat.succ_lt_succ (ih hj)
  have hlen := (searchIdx_standsAt h).length_le
  rw [List.length_drop] at hlen
  omega

/-- What is appended behind the sequence does not move a position already found. -/
theorem searchIdx_append {pattern l : List α} {k : ℕ} (h : searchIdx pattern l = some k)
    (more : List α) : searchIdx pattern (l ++ more) = some k := by
  induction l generalizing k with
  | nil => simp [searchIdx] at h
  | cons a rest ih =>
    rw [List.cons_append, searchIdx_cons_eq_some, ← List.cons_append]
    have hlength := (searchIdx_bound h).2
    rcases searchIdx_cons_eq_some.mp h with ⟨hp, rfl⟩ | ⟨hp, j, hj, rfl⟩
    · exact Or.inl ⟨hp.trans (List.prefix_append _ _), rfl⟩
    · refine Or.inr ⟨fun hpre => hp ?_, j, ih hj, rfl⟩
      exact List.prefix_of_prefix_length_le hpre (List.prefix_append _ _) (by omega)

/-- Decompose the sequence at the position found. -/
theorem searchIdx_split {pattern l : List α} {k : ℕ} (h : searchIdx pattern l = some k) :
    l = l.take k ++ pattern ++ l.drop (k + pattern.length) := by
  obtain ⟨rest, hrest⟩ := searchIdx_standsAt h
  have hdrop : l.drop (k + pattern.length) = rest := by
    rw [← List.drop_drop, ← hrest, List.drop_left]
  rw [hdrop, List.append_assoc, hrest, List.take_append_drop]

/-- A line without the terminator, once terminated, ends exactly at its terminator. -/
theorem searchIdx_terminated {c d : α} (hne : c ≠ d) (line rest : List α)
    (hline : ¬ [c, d] <:+: line) : searchIdx [c, d] (line ++ c :: d :: rest) = some line.length := by
  induction line with
  | nil => simp [searchIdx]
  | cons a line ih =>
    have htail : ¬ [c, d] <:+: line := fun h => hline (h.trans (List.suffix_cons a line).isInfix)
    have hhead : ¬ [c, d] <+: a :: line ++ c :: d :: rest := by
      intro hpre
      cases line with
      | nil =>
        simp only [List.cons_append, List.nil_append, List.cons_prefix_cons] at hpre
        exact hne hpre.2.1.symm
      | cons b line =>
        simp only [List.cons_append, List.cons_prefix_cons] at hpre
        obtain ⟨rfl, rfl, -⟩ := hpre
        exact hline ⟨[], line, rfl⟩
    rw [List.cons_append, searchIdx, if_neg (by simpa using hhead), ih htail]
    rfl

omit [DecidableEq α] in
/-- A separator that is neither element of the terminator keeps the terminator out of a line. -/
theorem not_infix_separated {c d x : α} (hxc : x ≠ c) (hxd : x ≠ d) {left right : List α}
    (hleft : ¬ [c, d] <:+: left) (hright : ¬ [c, d] <:+: right) : ¬ [c, d] <:+: left ++ x :: right := by
  induction left with
  | nil =>
    rw [List.nil_append, List.infix_cons_iff, List.cons_prefix_cons]
    exact not_or.mpr ⟨fun h => hxc h.1.symm, hright⟩
  | cons a left ih =>
    rw [List.infix_cons_iff] at hleft
    rw [List.cons_append, List.infix_cons_iff]
    refine not_or.mpr ⟨fun hpre => ?_, ih fun h => hleft (Or.inr h)⟩
    cases left with
    | nil =>
      simp only [List.nil_append, List.cons_prefix_cons] at hpre
      exact hxd hpre.2.1.symm
    | cons b left =>
      simp only [List.cons_append, List.cons_prefix_cons] at hpre
      obtain ⟨rfl, rfl, -⟩ := hpre
      exact hleft (Or.inl ⟨left, rfl⟩)

/-- Without the pattern anywhere the search fails. -/
theorem searchIdx_eq_none {pattern l : List α} (hpat : pattern ≠ []) :
    searchIdx pattern l = none ↔ ¬ pattern <:+: l := by
  induction l with
  | nil => simpa [searchIdx] using hpat
  | cons a rest ih =>
    by_cases hp : pattern.isPrefixOf (a :: rest)
    · have hin : pattern <:+: a :: rest := (List.isPrefixOf_iff_prefix.mp hp).isInfix
      simp [searchIdx, hp, hin]
    · have hpre : ¬ pattern <+: a :: rest := by simpa using hp
      rw [searchIdx, if_neg hp, Option.map_eq_none_iff, ih, List.infix_cons_iff]
      simp [hpre]

/-- The pattern does not occur before the position found. -/
theorem searchIdx_take {pattern l : List α} {k : ℕ} (hpat : pattern ≠ []) (h : searchIdx pattern l = some k) :
    ¬ pattern <:+: l.take k := by
  intro hin
  cases hearlier : searchIdx pattern (l.take k) with
  | none => exact (searchIdx_eq_none hpat).mp hearlier hin
  | some j =>
    have hj : j < (l.take k).length := (searchIdx_bound hearlier).1
    have hfound := searchIdx_append hearlier (l.drop k)
    rw [List.take_append_drop, h] at hfound
    rw [List.length_take] at hj
    have hsame : k = j := Option.some.inj hfound
    omega

/-- The position of the first element equal to `c` from `first` on, else the end. -/
def findFrom (l : List α) (first : ℕ) (c : α) : ℕ := first + (l.drop first).idxOf c

/-- The search ends at the end exactly when the range does not contain the element. -/
theorem findFrom_eq_length {l : List α} {first : ℕ} {c : α} (h : first ≤ l.length) :
    findFrom l first c = l.length ↔ c ∉ l.drop first := by
  rw [← List.idxOf_eq_length_iff, List.length_drop, findFrom]
  omega

/-- The search stops at the first separator behind the starting point. -/
theorem findFrom_separator {l before field rest : List α} {first : ℕ} {c : α}
    (hl : l = before ++ (field ++ c :: rest)) (hfirst : first = before.length) (h : c ∉ field) :
    findFrom l first c = first + field.length := by
  subst hl hfirst
  rw [findFrom, List.drop_left, List.idxOf_append_of_notMem h, List.idxOf_cons_self]
  rfl

/-- What stands in front of the first separator. -/
theorem takeWhile_separator {field : List α} {c : α} (h : c ∉ field) (rest : List α) :
    (field ++ c :: rest).takeWhile (· ≠ c) = field := by
  have hskip : ∀ b ∈ field, decide (b ≠ c) = true := fun b hb => decide_eq_true fun heq => h (heq ▸ hb)
  rw [List.takeWhile_append_of_pos hskip, List.takeWhile_cons_of_neg (by simp), List.append_nil]

/-- What the first separator and the rest are. -/
theorem dropWhile_separator {field : List α} {c : α} (h : c ∉ field) (rest : List α) :
    (field ++ c :: rest).dropWhile (· ≠ c) = c :: rest := by
  have hskip : ∀ b ∈ field, decide (b ≠ c) = true := fun b hb => decide_eq_true fun heq => h (heq ▸ hb)
  rw [List.dropWhile_append_of_pos hskip, List.dropWhile_cons_of_neg (by simp)]

end WebServer.Foundation
