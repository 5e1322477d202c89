-- SUMMARY: Evicting weighted items in a fixed order until the rest fits: which items stay.
import Mathlib.Algebra.Order.BigOperators.Group.Finset
import Mathlib.Data.Int.Order.Basic

/-!
# Greedy eviction

Items have weights, some are pinned, and `before` says which of two items is evicted
first. A run evicts the first unpinned item over and over until the rest fits or only
pinned items are left. Whether an unpinned item stays is decided by the weight of
what is evicted after it, however the run goes.
-/

namespace GreedyEviction

variable {ι : Type} [DecidableEq ι] {weight : ι → ℤ} {pinned : ι → Prop} {before : ι → ι → Prop}
  {capacity : ℤ} {S T : Finset ι} {x : ι}

/-- The weight of a set of items. -/
def load (weight : ι → ℤ) (S : Finset ι) : ℤ := ∑ i ∈ S, weight i

omit [DecidableEq ι] in
theorem load_mono (hweight : ∀ i ∈ S, 0 ≤ weight i) (hsub : T ⊆ S) : load weight T ≤ load weight S :=
  Finset.sum_le_sum_of_subset_of_nonneg hsub fun i hi _ => hweight i hi

/-- The items of `S` are evicted down to `T`. -/
inductive Run (weight : ι → ℤ) (pinned : ι → Prop) (before : ι → ι → Prop) (capacity : ℤ) :
    Finset ι → Finset ι → Prop where
  | fits {S : Finset ι} (h : load weight S ≤ capacity) : Run weight pinned before capacity S S
  | stuck {S : Finset ι} (h : ∀ i ∈ S, pinned i) : Run weight pinned before capacity S S
  | evict {S T : Finset ι} {v : ι} (hover : capacity < load weight S) (hv : v ∈ S) (hfree : ¬pinned v)
      (hfirst : ∀ i ∈ S, ¬pinned i → i ≠ v → before v i)
      (hrest : Run weight pinned before capacity (S.erase v) T) :
      Run weight pinned before capacity S T

theorem Run.subset (h : Run weight pinned before capacity S T) : T ⊆ S := by
  induction h with
  | fits => exact Finset.Subset.refl _
  | stuck => exact Finset.Subset.refl _
  | evict _ _ _ _ _ ih => exact ih.trans (Finset.erase_subset _ _)

/-- Pinned items stay. -/
theorem Run.mem_of_pinned (h : Run weight pinned before capacity S T) (hx : x ∈ S) (hpin : pinned x) :
    x ∈ T := by
  induction h with
  | fits => exact hx
  | stuck => exact hx
  | evict _ _ hfree _ _ ih =>
    refine ih (Finset.mem_erase.mpr ⟨?_, hx⟩)
    rintro rfl
    exact hfree hpin

variable [DecidablePred pinned] [DecidableRel before]

/-- The items of `S` that are still there when it is the turn of `x`. -/
def rivals (pinned : ι → Prop) (before : ι → ι → Prop) [DecidablePred pinned] [DecidableRel before]
    (S : Finset ι) (x : ι) : Finset ι :=
  S.filter fun i => pinned i ∨ ¬before i x

theorem rivals_erase_of_before {v : ι} (hfree : ¬pinned v) (hbefore : before v x) :
    rivals pinned before (S.erase v) x = rivals pinned before S x := by
  ext i
  simp only [rivals, Finset.mem_filter, Finset.mem_erase]
  constructor
  · rintro ⟨⟨-, hi⟩, hrival⟩
    exact ⟨hi, hrival⟩
  · rintro ⟨hi, hrival⟩
    refine ⟨⟨?_, hi⟩, hrival⟩
    rintro rfl
    exact hrival.elim hfree fun hnot => hnot hbefore

theorem rivals_eq_self (hasymm : ∀ i j, before i j → ¬before j i)
    (hfirst : ∀ i ∈ S, ¬pinned i → i ≠ x → before x i) : rivals pinned before S x = S := by
  refine Finset.filter_true_of_mem fun i hi => ?_
  by_cases hpin : pinned i
  · exact .inl hpin
  · by_cases heq : i = x
    · subst heq
      exact .inr fun h => hasymm i i h h
    · exact .inr (hasymm x i (hfirst i hi hpin heq))

/-- An unpinned item stays exactly if it fits together with the pinned items and those
that are evicted after it. -/
theorem Run.mem_iff (h : Run weight pinned before capacity S T) (hweight : ∀ i ∈ S, 0 ≤ weight i)
    (hasymm : ∀ i j, before i j → ¬before j i) (hx : x ∈ S) (hfree : ¬pinned x) :
    x ∈ T ↔ load weight (rivals pinned before S x) ≤ capacity := by
  induction h with
  | fits h => exact iff_of_true hx ((load_mono hweight (Finset.filter_subset _ _)).trans h)
  | stuck h => exact absurd (h x hx) hfree
  | @evict S T v hover hv hfreev hfirst hrest ih =>
    by_cases heq : x = v
    · -- it is the turn of `x`, and all rivals are left
      subst heq
      have hgone : x ∉ T := fun hT => Finset.notMem_erase _ _ (hrest.subset hT)
      rw [rivals_eq_self hasymm hfirst]
      exact iff_of_false hgone (not_le.mpr hover)
    · have hrest := ih (fun i hi => hweight i (Finset.mem_of_mem_erase hi))
        (Finset.mem_erase.mpr ⟨heq, hx⟩)
      rw [hrest, rivals_erase_of_before hfreev (hfirst x hx hfree heq)]

end GreedyEviction
