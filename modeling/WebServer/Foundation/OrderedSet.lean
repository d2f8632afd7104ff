import Mathlib.Data.List.TakeWhile
import Mathlib.Order.Lattice

/-!
# Ordered sets

A set is its strictly increasing list of elements. Inserting keeps the order and does nothing
when the element is there already. Everything below a bound stands in front, so the set can be
cut in two at the bound.
-/

namespace WebServer.Foundation

/-- A set of elements of a linear order, in increasing order. -/
structure OrderedSet (α : Type*) [LinearOrder α] where
  elements : List α
  increasing : elements.Pairwise (· < ·)

namespace OrderedSet

variable {α : Type*} [LinearOrder α]

/-- The empty set. -/
def empty : OrderedSet α := ⟨[], .nil⟩

/-- Put an element where it belongs in an increasing list. -/
def insertInto (x : α) : List α → List α
  | [] => [x]
  | y :: rest => if x < y then x :: y :: rest else if x = y then y :: rest else y :: insertInto x rest

/-- The elements after an insertion. -/
theorem mem_insertInto {x z : α} {l : List α} : z ∈ insertInto x l ↔ z = x ∨ z ∈ l := by
  induction l with
  | nil => simp [insertInto]
  | cons y rest ih =>
    rw [insertInto]
    split
    · exact List.mem_cons
    · split
      · next hequal => simp [hequal]
      · rw [List.mem_cons, ih, List.mem_cons, or_left_comm]

/-- An insertion keeps the order. -/
theorem increasing_insertInto (x : α) {l : List α} (h : l.Pairwise (· < ·)) :
    (insertInto x l).Pairwise (· < ·) := by
  induction l with
  | nil => exact List.pairwise_singleton _ x
  | cons y rest ih =>
    obtain ⟨hfirst, hrest⟩ := List.pairwise_cons.mp h
    rw [insertInto]
    split
    · next hless =>
      refine List.pairwise_cons.mpr ⟨List.forall_mem_cons.mpr ⟨hless, fun z hz => hless.trans (hfirst z hz)⟩, h⟩
    · next hnotless =>
      split
      · exact h
      · next hne =>
        refine List.pairwise_cons.mpr ⟨fun z hz => ?_, ih hrest⟩
        rcases mem_insertInto.mp hz with rfl | hmem
        · exact lt_of_le_of_ne (not_lt.mp hnotless) (Ne.symm hne)
        · exact hfirst z hmem

/-- A new element is added to the others. -/
theorem perm_insertInto {x : α} {l : List α} (h : x ∉ l) : (insertInto x l).Perm (x :: l) := by
  induction l with
  | nil => exact .refl _
  | cons y rest ih =>
    obtain ⟨hne, hrest⟩ := not_or.mp (mt List.mem_cons.mpr h)
    rw [insertInto, if_neg hne]
    split
    · exact .refl _
    · exact ((ih hrest).cons y).trans (.swap x y rest)

/-- `insert` and `emplace`. -/
def insert (s : OrderedSet α) (x : α) : OrderedSet α := ⟨insertInto x s.elements,
    increasing_insertInto x s.increasing⟩

/-- `begin`. -/
def first (s : OrderedSet α) : Option α := s.elements.head?

/-- The elements in front of `lower_bound(bound)`. -/
def below (s : OrderedSet α) (bound : α) : List α := s.elements.takeWhile (· < bound)

/-- What is left when the elements in front of `lower_bound(bound)` are erased. -/
def eraseBelow (s : OrderedSet α) (bound : α) : OrderedSet α :=
  ⟨s.elements.dropWhile (· < bound), s.increasing.sublist (List.dropWhile_sublist _)⟩

/-- The elements after an insertion. -/
@[simp] theorem mem_insert {s : OrderedSet α} {x z : α} : z ∈ (s.insert x).elements ↔ z = x ∨ z ∈ s.elements :=
  mem_insertInto

/-- The first element after an insertion is the smaller one of the new one and the first one before. -/
theorem first_insert (s : OrderedSet α) (x : α) :
    (s.insert x).first = some ((s.first).elim x (min x)) := by
  obtain ⟨elements, increasing⟩ := s
  rw [first, insert, first]
  cases elements with
  | nil => rfl
  | cons y rest =>
    simp only [insertInto, List.head?_cons, Option.elim_some]
    split
    · next hless => rw [min_eq_left hless.le]; rfl
    · next hnotless =>
      rw [min_eq_right (not_lt.mp hnotless)]
      split <;> rfl

/-- The first element is the smallest one. -/
theorem first_le {s : OrderedSet α} {x : α} (h : x ∈ s.elements) : ∃ least, s.first = some least ∧ least ≤ x := by
  obtain ⟨elements, increasing⟩ := s
  cases elements with
  | nil => cases h
  | cons y rest =>
    refine ⟨y, rfl, ?_⟩
    rcases List.mem_cons.mp h with rfl | hmem
    · exact le_rfl
    · exact (List.rel_of_pairwise_cons increasing hmem).le

/-- The elements below a bound and the other ones make up the set. -/
theorem below_append_eraseBelow (s : OrderedSet α) (bound : α) :
    s.below bound ++ (s.eraseBelow bound).elements = s.elements := List.takeWhile_append_dropWhile

/-- The elements below a bound are increasing. -/
theorem increasing_below (s : OrderedSet α) (bound : α) : (s.below bound).Pairwise (· < ·) :=
  s.increasing.sublist (List.takeWhile_sublist _)

/-- In an increasing list the elements less than a bound come first. -/
theorem takeWhile_eq_filter {bound : α} {l : List α} (h : l.Pairwise (· < ·)) :
    l.takeWhile (· < bound) = l.filter (· < bound) ∧ l.dropWhile (· < bound) = l.filter (¬ · < bound) := by
  induction l with
  | nil => exact ⟨rfl, rfl⟩
  | cons x rest ih =>
    obtain ⟨hfirst, hrest⟩ := List.pairwise_cons.mp h
    obtain ⟨htake, hdrop⟩ := ih hrest
    by_cases hx : x < bound
    · simp [hx, htake, hdrop]
    · have hlater : ∀ y ∈ rest, ¬ y < bound := fun y hy hless => hx ((hfirst y hy).trans hless)
      have hnone : rest.filter (· < bound) = [] := List.filter_eq_nil_iff.mpr (by simpa using hlater)
      have hall : rest.filter (¬ · < bound) = rest := List.filter_eq_self.mpr (by simpa using hlater)
      rw [List.takeWhile_cons_of_neg (by simpa using hx), List.dropWhile_cons_of_neg (by simpa using hx),
        List.filter_cons_of_neg (by simpa using hx), List.filter_cons_of_pos (by simpa using hx), hnone, hall]
      exact ⟨rfl, rfl⟩

/-- Exactly the elements less than the bound are below it. -/
theorem mem_below {s : OrderedSet α} {bound x : α} : x ∈ s.below bound ↔ x ∈ s.elements ∧ x < bound := by
  rw [below, (takeWhile_eq_filter s.increasing).1, List.mem_filter, decide_eq_true_iff]

/-- Exactly the elements which are not less than the bound are left. -/
theorem mem_eraseBelow {s : OrderedSet α} {bound x : α} :
    x ∈ (s.eraseBelow bound).elements ↔ x ∈ s.elements ∧ ¬ x < bound := by
  change x ∈ s.elements.dropWhile (· < bound) ↔ _
  rw [(takeWhile_eq_filter s.increasing).2, List.mem_filter, decide_eq_true_iff]

end OrderedSet

end WebServer.Foundation
