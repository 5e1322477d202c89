-- SUMMARY: The percentile used in simulation results.
import Mathlib.Algebra.Order.Floor.Ring
import Mathlib.Data.List.Sort
import Mathlib.Data.Rat.Floor
import KVDeadlineScheduler.Library.Quantile
import KVDeadlineScheduler.Schema

namespace KVMemoryIntent

/-- Linear interpolation between the two closest ranks of the sorted values. -/
def percentile (values : List ℚ) (p : ℚ) : Except Failure ℚ :=
  if values = [] then
    .ok 0
  else if p < 0 ∨ 100 < p then
    .error (.valueError "p must be in range 0..100")
  else
    let ordered := values.insertionSort (· ≤ ·)
    -- both ranks of a lone value are 0, which returns it
    let rank := ((ordered.length - 1 : ℕ) : ℚ) * (p / 100)
    let lower := ⌊rank⌋.toNat
    let upper := min (lower + 1) (ordered.length - 1)
    let lowerValue := ordered[lower]?.getD 0
    let upperValue := ordered[upper]?.getD 0
    if lower = upper then
      .ok lowerValue
    else
      .ok (lowerValue + (upperValue - lowerValue) * (rank - lower))

/-- A percentile is a quantile: its two ranks are neighbours in order, or both the last. -/
theorem percentile_eq {p : ℚ} (values : List ℚ) (h₀ : 0 ≤ p) (h₁ : p ≤ 100) :
    percentile values p = .ok (Quantile.quantile 0 values (p / 100)) := by
  rcases eq_or_ne values [] with rfl | hvalues
  · rw [Quantile.quantile_nil]
    rfl
  have hp : ¬(p < 0 ∨ 100 < p) := not_or.mpr ⟨not_lt.mpr h₀, not_lt.mpr h₁⟩
  have hfraction : p / 100 ≤ 1 := (div_le_one (by norm_num)).mpr h₁
  have hlower : ⌊((values.length - 1 : ℕ) : ℚ) * (p / 100)⌋₊ ≤ values.length - 1 :=
    Nat.floor_le_of_le (mul_le_of_le_one_right (Nat.cast_nonneg _) hfraction)
  simp only [percentile, if_neg hvalues, if_neg hp, List.length_insertionSort, Int.floor_toNat,
    Quantile.quantile, Quantile.interpolate, Quantile.orderStat, min_eq_left hlower]
  split
  next hsame => rw [← hsame, AffineMap.lineMap_same_apply]
  next =>
    rw [AffineMap.lineMap_apply_ring', Except.ok.injEq]
    ring

end KVMemoryIntent
