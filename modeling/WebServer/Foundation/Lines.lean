import WebServer.Foundation.Search

/-!
# Blocks of terminated lines

A block is written as its lines, each behind it the terminator, and an empty line at the end.
Reading takes lines up to the first empty one. Whatever stands behind a block is left
untouched, also when it looks like a block itself.
-/

namespace WebServer.Foundation

variable {α : Type*}

/-- The text of a block. -/
def blockText (terminator : List α) (lines : List (List α)) : List α :=
  lines.flatMap (· ++ terminator) ++ terminator

/-- The text of a block starts with its first line. -/
theorem blockText_cons (terminator line : List α) (lines : List (List α)) :
    blockText terminator (line :: lines) = line ++ (terminator ++ blockText terminator lines) := by
  simp [blockText]

/-- A block is longer than the number of its lines. -/
theorem length_lt_blockText {terminator : List α} (h : terminator ≠ []) (lines : List (List α)) :
    lines.length < (blockText terminator lines).length := by
  have hpos : 0 < terminator.length := List.length_pos_iff.mpr h
  induction lines with
  | nil => exact hpos
  | cons line lines ih =>
    rw [blockText_cons, List.length_append, List.length_append, List.length_cons]
    omega

variable [DecidableEq α]

/-- At most `fuel` lines up to the first empty one, and what is behind it. -/
def readBlock (terminator : List α) : ℕ → List α → Option (List (List α) × List α)
  | 0, _ => none
  | fuel + 1, text =>
    match searchIdx terminator text with
    | none => none
    | some 0 => some ([], text.drop terminator.length)
    | some (finish + 1) =>
      (readBlock terminator fuel (text.drop (finish + 1 + terminator.length))).map fun (lines, rest) =>
        (text.take (finish + 1) :: lines, rest)

/-- A written block is read back, whatever stands behind it. -/
theorem readBlock_blockText {c d : α} (hne : c ≠ d) {lines : List (List α)}
    (hlines : ∀ line ∈ lines, line ≠ [] ∧ ¬ [c, d] <:+: line) {fuel : ℕ} (hfuel : lines.length < fuel)
    (rest : List α) : readBlock [c, d] fuel (blockText [c, d] lines ++ rest) = some (lines, rest) := by
  induction lines generalizing fuel with
  | nil =>
    obtain ⟨fuel, rfl⟩ := Nat.exists_eq_add_one_of_ne_zero (Nat.ne_of_gt hfuel)
    have hsearch : searchIdx [c, d] (c :: d :: rest) = some 0 := searchIdx_terminated hne [] rest (by simp)
    change readBlock [c, d] (fuel + 1) (c :: d :: rest) = _
    simp [readBlock, hsearch]
  | cons line lines ih =>
    obtain ⟨fuel, rfl⟩ := Nat.exists_eq_add_one_of_ne_zero (Nat.ne_zero_of_lt hfuel)
    obtain ⟨⟨hnonempty, hclean⟩, hlater⟩ := List.forall_mem_cons.mp hlines
    have htext : blockText [c, d] (line :: lines) ++ rest = line ++ c :: d :: (blockText [c, d] lines ++ rest) := by
      simp [blockText_cons]
    have hsearch := searchIdx_terminated hne line (blockText [c, d] lines ++ rest) hclean
    obtain ⟨finish, hfinish⟩ := Nat.exists_eq_add_one_of_ne_zero (mt List.length_eq_zero_iff.mp hnonempty)
    have hdrop : (line ++ c :: d :: (blockText [c, d] lines ++ rest)).drop (finish + 1 + 2) =
        blockText [c, d] lines ++ rest := by
      rw [← hfinish, ← List.drop_drop, List.drop_left]
      rfl
    rw [htext, readBlock, hsearch, hfinish]
    simp only [List.length_cons, List.length_nil]
    rw [hdrop, ih hlater (by simpa using hfuel), ← hfinish, List.take_left]
    rfl

end WebServer.Foundation
