-- SUMMARY: An interval tree seen through its enumeration order: ascending starts, equal starts in insertion order.
import Mathlib.Data.List.Perm.Basic
import Mathlib.Order.Lattice

/-!
# Interval trees

A tree of intervals is known to its callers by the order in which it enumerates
the nodes that overlap a range. It is modelled by that order: a list in which a
new node stands behind all nodes that start no later.
-/

namespace IntervalTree

variable {α β : Type} [LinearOrder β] (start last : α → β)

def insert (x : α) : List α → List α
  | [] => [x]
  | y :: l => if start y ≤ start x then y :: insert x l else x :: y :: l

/-- A node shares a point with the range from `lo` to `hi`. -/
def overlaps (lo hi : β) (x : α) : Bool := decide (start x ≤ hi) && decide (lo ≤ last x)

/-- The first node that overlaps the range and meets a test, as an iteration finds it. -/
def findOverlap (lo hi : β) (p : α → Bool) (l : List α) : Option α :=
  (l.filter (overlaps start last lo hi)).find? p

/-- Remove that node. -/
def removeOverlap (lo hi : β) (p : α → Bool) (l : List α) : List α :=
  l.eraseP fun x => overlaps start last lo hi x && p x

variable {start last} {l : List α} {x y : α}

theorem insert_perm (x : α) (l : List α) : (insert start x l).Perm (x :: l) := by
  induction l with
  | nil => exact .refl _
  | cons y l ih =>
    simp only [insert]
    split
    · exact (ih.cons y).trans (.swap x y l)
    · exact .refl _

@[simp] theorem mem_insert : y ∈ insert start x l ↔ y = x ∨ y ∈ l := by
  rw [(insert_perm x l).mem_iff, List.mem_cons]

/-- An enumeration ascends. -/
theorem pairwise_insert (h : l.Pairwise fun y z => start y ≤ start z) (x : α) :
    (insert start x l).Pairwise fun y z => start y ≤ start z := by
  induction l with
  | nil => exact List.pairwise_singleton _ _
  | cons y l ih =>
    obtain ⟨hy, hl⟩ := List.pairwise_cons.mp h
    simp only [insert]
    split
    · rename_i hyx
      refine List.pairwise_cons.mpr ⟨fun z hz => ?_, ih hl⟩
      rcases mem_insert.mp hz with rfl | hz
      · exact hyx
      · exact hy z hz
    · rename_i hyx
      have hxy : start x ≤ start y := le_of_lt (not_le.mp hyx)
      refine List.pairwise_cons.mpr ⟨fun z hz => ?_, h⟩
      rcases List.mem_cons.mp hz with rfl | hz
      · exact hxy
      · exact hxy.trans (hy z hz)

/-- A node that starts no earlier than the others comes last. -/
theorem insert_of_le (h : ∀ y ∈ l, start y ≤ start x) : insert start x l = l ++ [x] := by
  induction l with
  | nil => rfl
  | cons y l ih =>
    rw [insert, if_pos (h y List.mem_cons_self), ih fun z hz => h z (List.mem_cons_of_mem y hz),
      List.cons_append]

theorem findOverlap_eq_some {lo hi : β} {p : α → Bool}
    (h : findOverlap start last lo hi p l = some x) :
    x ∈ l ∧ overlaps start last lo hi x = true ∧ p x = true := by
  have hmem := List.mem_of_find?_eq_some h
  rw [List.mem_filter] at hmem
  exact ⟨hmem.1, hmem.2, List.find?_some h⟩

theorem findOverlap_eq_none {lo hi : β} {p : α → Bool} :
    findOverlap start last lo hi p l = none ↔
      ∀ x ∈ l, overlaps start last lo hi x = true → p x = false := by
  simp [findOverlap, List.find?_eq_none]

/-- A node that alone overlaps the range and meets the test is the one found. -/
theorem findOverlap_eq_some_of_unique {lo hi : β} {p : α → Bool} (hin : x ∈ l)
    (hx : overlaps start last lo hi x = true) (hp : p x = true)
    (hunique : ∀ y ∈ l, overlaps start last lo hi y = true → p y = true → y = x) :
    findOverlap start last lo hi p l = some x := by
  cases hfind : findOverlap start last lo hi p l with
  | none =>
    have := findOverlap_eq_none.mp hfind x hin hx
    rw [hp] at this
    cases this
  | some y =>
    obtain ⟨hy, hyo, hyp⟩ := findOverlap_eq_some hfind
    rw [hunique y hy hyo hyp]

theorem removeOverlap_sublist (lo hi : β) (p : α → Bool) (l : List α) :
    (removeOverlap start last lo hi p l).Sublist l := List.eraseP_sublist

/-- Only nodes that overlap the range and meet the test are removed. -/
theorem mem_removeOverlap {lo hi : β} {p : α → Bool} (hin : x ∈ l) (hp : p x = false) :
    x ∈ removeOverlap start last lo hi p l := by
  refine (List.mem_eraseP_of_neg ?_).mpr hin
  simp [hp]

end IntervalTree
