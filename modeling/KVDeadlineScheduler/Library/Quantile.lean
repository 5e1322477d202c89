-- SUMMARY: Quantiles of a list: order statistics, the values between two of them, and how both grow.
import Mathlib.Algebra.Order.Floor.Semiring
import Mathlib.Data.List.Sort
import Mathlib.LinearAlgebra.AffineSpace.Ordered
import Mathlib.Order.Bounds.Basic

/-!
# Quantiles

The order statistics of a list are its values in order. A quantile is taken at a
fraction of the way from the first to the last of them, where a rank that is not
whole lies on the segment between its neighbours. Quantiles grow with the fraction
and with the values.
-/

namespace Quantile

/-! ## Sorting raised values -/

section Sorting

variable {α : Type} [LinearOrder α] {a b : α} {xs ys : List α}

theorem orderedInsert_head (h : (a :: xs).Pairwise (· ≤ ·)) : xs.orderedInsert (· ≤ ·) a = a :: xs := by
  cases xs with
  | nil => rfl
  | cons x xs =>
    exact List.orderedInsert_cons_of_le (· ≤ ·) xs (List.rel_of_pairwise_cons h List.mem_cons_self)

/-- Insertion keeps one sorted list below another, position by position. -/
theorem forall₂_orderedInsert (hxs : xs.Pairwise (· ≤ ·)) (hys : ys.Pairwise (· ≤ ·)) (hab : a ≤ b)
    (h : List.Forall₂ (· ≤ ·) xs ys) :
    List.Forall₂ (· ≤ ·) (xs.orderedInsert (· ≤ ·) a) (ys.orderedInsert (· ≤ ·) b) := by
  induction h generalizing a b with
  | nil => exact .cons hab .nil
  | @cons x y xs ys hxy h ih =>
    rw [List.orderedInsert_cons, List.orderedInsert_cons]
    by_cases hax : a ≤ x <;> by_cases hby : b ≤ y <;> simp only [hax, hby, if_true, if_false]
    · exact .cons hab (.cons hxy h)
    · -- the head of one list is pushed back, and meets what is inserted into the other
      have hrest := ih hxs.of_cons hys.of_cons (hxy.trans (le_of_not_ge hby))
      rw [orderedInsert_head hxs] at hrest
      exact .cons (hax.trans hxy) hrest
    · have hrest := ih hxs.of_cons hys.of_cons (hab.trans hby)
      rw [orderedInsert_head hys] at hrest
      exact .cons ((le_of_not_ge hax).trans hab) hrest
    · exact .cons hxy (ih hxs.of_cons hys.of_cons hab)

/-- Sorting commutes with raising values. -/
theorem forall₂_insertionSort (h : List.Forall₂ (· ≤ ·) xs ys) :
    List.Forall₂ (· ≤ ·) (xs.insertionSort (· ≤ ·)) (ys.insertionSort (· ≤ ·)) := by
  induction h with
  | nil => exact .nil
  | cons hab _ ih =>
    rw [List.insertionSort_cons, List.insertionSort_cons]
    exact forall₂_orderedInsert (List.pairwise_insertionSort _ _) (List.pairwise_insertionSort _ _) hab ih

end Sorting

/-! ## Order statistics -/

section OrderStatistics

variable {α : Type} [LinearOrder α]

/-- The value of rank `k` in order, or the largest. An empty list has `default` only. -/
def orderStat (default : α) (xs : List α) (k : ℕ) : α :=
  ((xs.insertionSort (· ≤ ·))[min k (xs.length - 1)]?).getD default

variable (default : α) {xs ys : List α} {k : ℕ}

theorem orderStat_eq_get (hxs : xs ≠ []) :
    ∃ hk : min k (xs.length - 1) < (xs.insertionSort (· ≤ ·)).length,
      orderStat default xs k = (xs.insertionSort (· ≤ ·)).get ⟨_, hk⟩ := by
  have hlength := List.length_pos_iff.mpr hxs
  have hk : min k (xs.length - 1) < (xs.insertionSort (· ≤ ·)).length := by
    rw [List.length_insertionSort]
    omega
  exact ⟨hk, by rw [orderStat, List.getElem?_eq_getElem hk]; rfl⟩

theorem orderStat_mono : Monotone (orderStat default xs) := by
  intro j k hjk
  rcases eq_or_ne xs [] with rfl | hxs
  · rfl
  obtain ⟨hj, hjget⟩ := orderStat_eq_get default (k := j) hxs
  obtain ⟨hk, hkget⟩ := orderStat_eq_get default (k := k) hxs
  rw [hjget, hkget]
  exact (List.pairwise_insertionSort (· ≤ ·) xs).rel_get_of_le (min_le_min_right _ hjk)

theorem orderStat_raise (h : List.Forall₂ (· ≤ ·) xs ys) (k : ℕ) :
    orderStat default xs k ≤ orderStat default ys k := by
  rcases eq_or_ne xs [] with rfl | hxs
  · cases h
    rfl
  have hys : ys ≠ [] := by
    rintro rfl
    exact hxs (List.forall₂_nil_right_iff.mp h)
  obtain ⟨hx, hxget⟩ := orderStat_eq_get default (k := k) hxs
  obtain ⟨hy, hyget⟩ := orderStat_eq_get default (k := k) hys
  rw [hxget, hyget]
  simp only [h.length_eq] at hx ⊢
  exact (forall₂_insertionSort h).get hx hy

theorem orderStat_perm (h : xs.Perm ys) : orderStat default xs = orderStat default ys := by
  have hsorted : xs.insertionSort (· ≤ ·) = ys.insertionSort (· ≤ ·) := by
    refine List.Perm.eq_of_pairwise' (List.pairwise_insertionSort _ _) (List.pairwise_insertionSort _ _) ?_
    exact (List.perm_insertionSort _ xs).trans (h.trans (List.perm_insertionSort _ ys).symm)
  funext k
  rw [orderStat, orderStat, hsorted, h.length_eq]

theorem orderStat_mem (hxs : xs ≠ []) (k : ℕ) : orderStat default xs k ∈ xs := by
  obtain ⟨hk, hget⟩ := orderStat_eq_get default (k := k) hxs
  rw [hget]
  exact (List.mem_insertionSort _).mp (List.get_mem _ _)

theorem exists_orderStat {x : α} (hx : x ∈ xs) : ∃ k, k ≤ xs.length - 1 ∧ orderStat default xs k = x := by
  obtain ⟨⟨k, hk⟩, hget⟩ := List.get_of_mem ((List.mem_insertionSort (· ≤ ·)).mpr hx)
  have hlast : k ≤ xs.length - 1 := by
    rw [List.length_insertionSort] at hk
    omega
  refine ⟨k, hlast, ?_⟩
  rw [orderStat, min_eq_left hlast, List.getElem?_eq_getElem hk]
  exact hget

/-- The first is the least value. -/
theorem isLeast_orderStat (hxs : xs ≠ []) : IsLeast {x | x ∈ xs} (orderStat default xs 0) := by
  refine ⟨orderStat_mem default hxs 0, fun x hx => ?_⟩
  obtain ⟨k, -, rfl⟩ := exists_orderStat default hx
  exact orderStat_mono default (Nat.zero_le k)

/-- The last is the greatest. -/
theorem isGreatest_orderStat (hxs : xs ≠ []) :
    IsGreatest {x | x ∈ xs} (orderStat default xs (xs.length - 1)) := by
  refine ⟨orderStat_mem default hxs _, fun x hx => ?_⟩
  obtain ⟨k, hk, rfl⟩ := exists_orderStat default hx
  exact orderStat_mono default hk

end OrderStatistics

/-! ## Interpolation -/

section Interpolation

variable {K : Type} [Field K] [LinearOrder K] [FloorSemiring K]

/-- The values of `f` between whole numbers, on the segments that join its values there. -/
def interpolate (f : ℕ → K) (r : K) : K :=
  AffineMap.lineMap (f ⌊r⌋₊) (f (⌊r⌋₊ + 1)) (r - ⌊r⌋₊)

variable [IsStrictOrderedRing K] {f g : ℕ → K} {r s : K}

theorem interpolate_natCast (f : ℕ → K) (k : ℕ) : interpolate f k = f k := by
  rw [interpolate, Nat.floor_natCast, sub_self, AffineMap.lineMap_apply_zero]

/-- A rank stays below the end of its segment. -/
theorem interpolate_le_next (hf : Monotone f) : interpolate f r ≤ f (⌊r⌋₊ + 1) := by
  have hr : r - ⌊r⌋₊ < 1 := by
    rw [sub_lt_iff_lt_add']
    exact Nat.lt_floor_add_one r
  exact (lineMap_le_right_iff_le hr).mpr (hf (Nat.le_succ _))

theorem le_interpolate (hf : Monotone f) (hr : 0 ≤ r) : f ⌊r⌋₊ ≤ interpolate f r := by
  calc f ⌊r⌋₊ = AffineMap.lineMap (f ⌊r⌋₊) (f ⌊r⌋₊) (r - ⌊r⌋₊) := (AffineMap.lineMap_same_apply _ _).symm
    _ ≤ interpolate f r := lineMap_mono_right (hf (Nat.le_succ _)) (sub_nonneg.mpr (Nat.floor_le hr))

/-- Along a segment, and from one segment to a later one. -/
theorem interpolate_mono (hf : Monotone f) : Monotone (interpolate f) := by
  intro r s hrs
  rcases (Nat.floor_mono hrs).eq_or_lt with hfloor | hfloor
  · rcases hrs.eq_or_lt with rfl | hlt
    · rfl
    rw [interpolate, interpolate, hfloor]
    exact (lineMap_le_lineMap_iff_of_lt (sub_lt_sub_right hlt _)).mpr (hf (Nat.le_succ _))
  · have hs : 0 ≤ s := (Nat.pos_of_floor_pos (Nat.zero_lt_of_lt hfloor)).le
    calc interpolate f r ≤ f (⌊r⌋₊ + 1) := interpolate_le_next hf
      _ ≤ f ⌊s⌋₊ := hf hfloor
      _ ≤ interpolate f s := le_interpolate hf hs

theorem interpolate_raise (h : ∀ k, f k ≤ g k) (hr : 0 ≤ r) : interpolate f r ≤ interpolate g r := by
  have hend : r - ⌊r⌋₊ ≤ 1 := by
    rw [sub_le_iff_le_add']
    exact (Nat.lt_floor_add_one r).le
  exact lineMap_mono_endpoints (h _) (h _) (sub_nonneg.mpr (Nat.floor_le hr)) hend

end Interpolation

/-! ## Quantiles -/

section Quantiles

variable {K : Type} [Field K] [LinearOrder K] [FloorSemiring K]

/-- The value that is the fraction `r` of the way through the order of the list. -/
def quantile (default : K) (xs : List K) (r : K) : K :=
  interpolate (orderStat default xs) ((xs.length - 1 : ℕ) * r)

variable (default : K) {xs ys : List K} {r : K}

theorem quantile_nil (r : K) : quantile default [] r = default := AffineMap.lineMap_same_apply default _

theorem quantile_perm (h : xs.Perm ys) : quantile default xs = quantile default ys := by
  funext r
  rw [quantile, quantile, orderStat_perm default h, h.length_eq]

variable [IsStrictOrderedRing K]

theorem quantile_mono : Monotone (quantile default xs) := by
  intro r s hrs
  exact interpolate_mono (orderStat_mono default) (mul_le_mul_of_nonneg_left hrs (Nat.cast_nonneg _))

theorem quantile_raise (h : List.Forall₂ (· ≤ ·) xs ys) (hr : 0 ≤ r) :
    quantile default xs r ≤ quantile default ys r := by
  rw [quantile, quantile, ← h.length_eq]
  exact interpolate_raise (orderStat_raise default h) (mul_nonneg (Nat.cast_nonneg _) hr)

theorem isLeast_quantile (hxs : xs ≠ []) : IsLeast {x | x ∈ xs} (quantile default xs 0) := by
  have hfirst := interpolate_natCast (orderStat default xs) 0
  rw [Nat.cast_zero] at hfirst
  rw [quantile, mul_zero, hfirst]
  exact isLeast_orderStat default hxs

theorem isGreatest_quantile (hxs : xs ≠ []) : IsGreatest {x | x ∈ xs} (quantile default xs 1) := by
  rw [quantile, mul_one, interpolate_natCast]
  exact isGreatest_orderStat default hxs

end Quantiles

end Quantile
