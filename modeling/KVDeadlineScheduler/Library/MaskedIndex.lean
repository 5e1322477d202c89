-- SUMMARY: Indexing a buffer by a masked counter: no collisions for powers of two, and a collision for every other capacity.
import Mathlib.Data.Finset.Card
import Mathlib.Data.Nat.Bitwise
import Mathlib.Data.Nat.Factorization.Basic

/-!
# Masked indices

A buffer of `c` slots is indexed by a counter masked with `c - 1`. When `c` is a
power of two the mask is the remainder, so any `c` consecutive counters have
distinct slots. For any other `c` some slot is never hit, so two of any `c`
counters share one.
-/

namespace MaskedIndex

variable {c k : ℕ}

theorem and_pred_lt (hc : 0 < c) (n : ℕ) : n &&& (c - 1) < c := by
  have := Nat.and_le_right (n := n) (m := c - 1)
  omega

theorem and_pred_two_pow (n k : ℕ) : n &&& (2 ^ k - 1) = n % 2 ^ k :=
  Nat.and_two_pow_sub_one_eq_mod n k

/-- Counters less than a full turn apart have distinct remainders. -/
theorem mod_ne_mod {i j : ℕ} (hij : i < j) (hj : j < i + c) : i % c ≠ j % c := by
  intro h
  have hdvd : c ∣ j - i := Nat.dvd_of_mod_eq_zero (Nat.sub_mod_eq_zero_of_mod_eq h.symm)
  have := Nat.le_of_dvd (by omega) hdvd
  omega

/-- A counter that wraps around has the same slots. -/
theorem wrap_mod {w : ℕ} (hk : k ≤ w) (n : ℕ) : n % 2 ^ w % 2 ^ k = n % 2 ^ k :=
  Nat.mod_mod_of_dvd n (Nat.pow_dvd_pow 2 hk)

/-- The lowest bit of a capacity is a slot that no masked counter hits, unless it
is the capacity itself. -/
theorem exists_missing (hc : 0 < c) (hpow : ¬∃ k, c = 2 ^ k) : ∃ v < c, ∀ n, n &&& (c - 1) ≠ v := by
  obtain ⟨k, m, hodd, hm⟩ := Nat.exists_eq_two_pow_mul_odd hc.ne'
  have hpos : 0 < 2 ^ k := Nat.two_pow_pos k
  have hm₁ : m ≠ 1 := by
    rintro rfl
    exact hpow ⟨k, by rw [hm, mul_one]⟩
  obtain ⟨a, ha⟩ := hodd
  have hclear : (c - 1).testBit k = false := by
    have heq : c - 1 = 2 ^ k * (2 * a) + (2 ^ k - 1) := by
      rw [hm, ha, mul_add, mul_one]
      omega
    rw [heq, Nat.testBit_two_pow_mul_add _ (by omega)]
    simp
  refine ⟨2 ^ k, ?_, fun n hn => ?_⟩
  · rw [hm, ha]
    have hlt : 2 ^ k * 1 < 2 ^ k * (2 * a + 1) := Nat.mul_lt_mul_of_pos_left (by omega) hpos
    simpa using hlt
  · have hbit := congrArg (Nat.testBit · k) hn
    simp [Nat.testBit_and, hclear, Nat.testBit_two_pow_self] at hbit

/-- Two of the first `c` counters share a slot. -/
theorem exists_collision (hc : 0 < c) (hpow : ¬∃ k, c = 2 ^ k) (counter : ℕ → ℕ) :
    ∃ i j, i < j ∧ j < c ∧ counter i &&& (c - 1) = counter j &&& (c - 1) := by
  obtain ⟨v, hv, hmiss⟩ := exists_missing hc hpow
  have hmaps : Set.MapsTo (fun i => counter i &&& (c - 1)) (Finset.range c)
      ((Finset.range c).erase v) := by
    intro i _
    exact Finset.mem_erase.mpr ⟨hmiss _, Finset.mem_range.mpr (and_pred_lt hc _)⟩
  have hcard : ((Finset.range c).erase v).card < (Finset.range c).card :=
    Finset.card_erase_lt_of_mem (Finset.mem_range.mpr hv)
  obtain ⟨i, hi, j, hj, hne, heq⟩ := Finset.exists_ne_map_eq_of_card_lt_of_maps_to hcard hmaps
  rw [Finset.mem_range] at hi hj
  rcases Nat.lt_or_gt_of_ne hne with hlt | hlt
  · exact ⟨i, j, hlt, hj, heq⟩
  · exact ⟨j, i, hlt, hi, heq.symm⟩

end MaskedIndex
