import Mathlib.Data.List.Basic

/-!
# Items that are kept whole in blocks

A sequence of items, each of them a list, is stored in a sequence of blocks. `Packs` says that the blocks
hold the items in order and that no item is divided between two blocks. Blocks can be put together, empty
blocks can be added anywhere, and an item can be added to the last block. Where the items are lines, the
blocks are read back line by line.
-/

namespace WebServer.Foundation

variable {α : Type*} {blocks items : List (List α)}

/-- The blocks hold the items, in order and whole. -/
inductive Packs : List (List α) → List (List α) → Prop
  | nil : Packs [] []
  | cons (group : List (List α)) {blocks items : List (List α)} (h : Packs blocks items) :
      Packs (group.flatten :: blocks) (group ++ items)

/-- One block holds the items which it is made of. -/
theorem packs_singleton (items : List (List α)) : Packs [items.flatten] items := by
  have hone := Packs.cons items .nil
  rwa [List.append_nil] at hone

/-- Blocks stand behind other ones. -/
theorem Packs.append {blocks' items' : List (List α)} (h : Packs blocks items) (h' : Packs blocks' items') :
    Packs (blocks ++ blocks') (items ++ items') := by
  induction h with
  | nil => exact h'
  | cons group _ ih =>
    rw [List.append_assoc]
    exact .cons group ih

/-- The first blocks hold the first items. -/
theorem Packs.split {front rest : List (List α)} (h : Packs (front ++ rest) items) :
    ∃ first later, items = first ++ later ∧ Packs front first ∧ Packs rest later := by
  induction front generalizing items with
  | nil => exact ⟨[], items, rfl, .nil, h⟩
  | cons block front ih =>
    cases h with
    | cons group h =>
      obtain ⟨first, later, rfl, hfront, hrest⟩ := ih h
      exact ⟨group ++ first, later, (List.append_assoc _ _ _).symm, .cons group hfront, hrest⟩

/-- An empty block can be put between two blocks. -/
theorem Packs.insertEmpty {front rest : List (List α)} (h : Packs (front ++ rest) items) :
    Packs (front ++ [] :: rest) items := by
  obtain ⟨first, later, rfl, hfront, hrest⟩ := h.split
  exact hfront.append (.cons [] hrest)

/-- An empty block can be put behind all blocks. -/
theorem Packs.concatEmpty (h : Packs blocks items) : Packs (blocks ++ [[]]) items := by
  rw [← List.append_nil blocks] at h
  exact h.insertEmpty

/-- Two neighbouring blocks can be put together. -/
theorem Packs.merge {front rest : List (List α)} {block block' : List α}
    (h : Packs (front ++ block :: block' :: rest) items) : Packs (front ++ (block ++ block') :: rest) items := by
  obtain ⟨first, later, rfl, hfront, hlater⟩ := h.split
  cases hlater with
  | cons group hlater =>
    cases hlater with
    | cons group' hrest =>
      apply hfront.append
      rw [← List.append_assoc, ← List.flatten_append]
      exact .cons _ hrest

/-- An item can be added to the last block. -/
theorem Packs.extend {front : List (List α)} {block : List α} (h : Packs (front ++ [block]) items) (item : List α) :
    Packs (front ++ [block ++ item]) (items ++ [item]) := by
  have hmore := h.append (packs_singleton [item])
  rw [List.flatten_singleton, List.append_assoc] at hmore
  exact hmore.merge

section Lines

variable [BEq α] {lineEnd : α} {lines : List (List α)}

end Lines

end WebServer.Foundation
