-- SUMMARY: Percentiles grow with their rank and with the values, and so do those that a result reports.
import KVDeadlineScheduler.Simulator.Effects

/-!
# Percentiles

A percentile is a quantile of the values, from the least of them at 0 to the greatest
at 100. A result reports three of them, of the latencies that its run recorded.
-/

namespace KVMemoryIntent

/-! ## Any values -/

variable {values : List ℚ} {p : ℚ}

/-- All percentiles lie in order, between the least value and the greatest. -/
theorem percentile_between (hvalues : values ≠ []) :
    ∃ least greatest, IsLeast {v | v ∈ values} least ∧ IsGreatest {v | v ∈ values} greatest ∧
      percentile values 0 = .ok least ∧ percentile values 100 = .ok greatest ∧
      ∀ p q, 0 ≤ p → p ≤ q → q ≤ 100 → ∃ x y, percentile values p = .ok x ∧ percentile values q = .ok y ∧
        least ≤ x ∧ x ≤ y ∧ y ≤ greatest := by
  have hleast : percentile values 0 = .ok (Quantile.quantile 0 values 0) := by
    simpa using percentile_eq values le_rfl (show (0 : ℚ) ≤ 100 by norm_num)
  have hgreatest : percentile values 100 = .ok (Quantile.quantile 0 values 1) := by
    simpa using percentile_eq values (show (0 : ℚ) ≤ 100 by norm_num) le_rfl
  refine ⟨_, _, Quantile.isLeast_quantile 0 hvalues, Quantile.isGreatest_quantile 0 hvalues, hleast,
    hgreatest, ?_⟩
  intro p q hp hpq hq
  have hstart : 0 ≤ p / 100 := div_nonneg hp (by norm_num)
  have hrank : p / 100 ≤ q / 100 := div_le_div_of_nonneg_right hpq (by norm_num)
  have hend : q / 100 ≤ 1 := (div_le_one (by norm_num)).mpr hq
  exact ⟨_, _, percentile_eq values hp (hpq.trans hq), percentile_eq values (hp.trans hpq) hq,
    Quantile.quantile_mono 0 hstart, Quantile.quantile_mono 0 hrank, Quantile.quantile_mono 0 hend⟩

/-- The order of the values does not matter, also not to a percentile out of range. -/
theorem percentile_perm {permuted : List ℚ} (h : values.Perm permuted) (p : ℚ) :
    percentile permuted p = percentile values p := by
  by_cases hp : 0 ≤ p ∧ p ≤ 100
  · rw [percentile_eq values hp.1 hp.2, percentile_eq permuted hp.1 hp.2, Quantile.quantile_perm 0 h]
  · have hrange : p < 0 ∨ 100 < p := by
      rw [not_and_or, not_le, not_le] at hp
      exact hp
    have hnil : permuted = [] ↔ values = [] := by
      rw [← List.length_eq_zero_iff, ← h.length_eq, List.length_eq_zero_iff]
    simp only [percentile, if_pos hrange, hnil]

theorem percentile_raise {raised : List ℚ} (h : List.Forall₂ (· ≤ ·) values raised) (h₀ : 0 ≤ p)
    (h₁ : p ≤ 100) :
    ∃ x y, percentile values p = .ok x ∧ percentile raised p = .ok y ∧ x ≤ y :=
  ⟨_, _, percentile_eq values h₀ h₁, percentile_eq raised h₀ h₁,
    Quantile.quantile_raise 0 h (div_nonneg h₀ (by norm_num))⟩

/-! ## Reported latencies -/

/-- A result reports quantiles of the latencies that its run recorded. -/
theorem KVMemorySimulator.report_percentiles (sim : KVMemorySimulator) (s : SimulatorState)
    (events : List MemoryIntentEvent) :
    (sim.report s events).p50LatencyUs ≤ (sim.report s events).p95LatencyUs ∧
      (sim.report s events).p95LatencyUs ≤ (sim.report s events).p99LatencyUs :=
  ⟨Quantile.quantile_mono 0 (by norm_num), Quantile.quantile_mono 0 (by norm_num)⟩

/-- Percentiles run from the least value to the greatest, and follow the values, not their
order. Those of a result are in order, also when it recorded no latency. -/
theorem percentiles_in_order (hvalues : values ≠ []) :
    (∃ least greatest, IsLeast {v | v ∈ values} least ∧ IsGreatest {v | v ∈ values} greatest ∧
      percentile values 0 = .ok least ∧ percentile values 100 = .ok greatest ∧
      ∀ p q, 0 ≤ p → p ≤ q → q ≤ 100 → ∃ x y, percentile values p = .ok x ∧ percentile values q = .ok y ∧
        least ≤ x ∧ x ≤ y ∧ y ≤ greatest) ∧
    (∀ permuted, values.Perm permuted → ∀ p, percentile permuted p = percentile values p) ∧
    (∀ raised, List.Forall₂ (· ≤ ·) values raised → ∀ p, 0 ≤ p → p ≤ 100 →
      ∃ x y, percentile values p = .ok x ∧ percentile raised p = .ok y ∧ x ≤ y) ∧
    ∀ (sim : KVMemorySimulator) (order : SetOrder) (s s' : SimulatorState) (events : List MemoryIntentEvent)
      (result : SimulationResult), sim.run order s events = .ok (s', result) →
      result.p50LatencyUs ≤ result.p95LatencyUs ∧ result.p95LatencyUs ≤ result.p99LatencyUs := by
  refine ⟨percentile_between hvalues, fun permuted h p => percentile_perm h p,
    fun raised h p h₀ h₁ => percentile_raise h h₀ h₁, ?_⟩
  intro sim order s s' events result h
  obtain ⟨-, rfl⟩ := KVMemorySimulator.run_ok h
  exact sim.report_percentiles s' events

/-- Three values, in another order, and with one of them raised. -/
theorem percentiles_in_order_three :
    percentile [3, 1, 2] 50 = .ok 2 ∧ percentile [1, 2, 3] 50 = percentile [3, 1, 2] 50 ∧
      ∃ x y, percentile [3, 1, 2] 50 = .ok x ∧ percentile [3, 1, 7] 50 = .ok y ∧ x ≤ y := by
  have hvalues : ([3, 1, 2] : List ℚ) ≠ [] := by decide
  have h := percentiles_in_order hvalues
  refine ⟨by decide +kernel, h.2.1 [1, 2, 3] (by decide) 50,
    h.2.2.1 [3, 1, 7] ?_ 50 (by norm_num) (by norm_num)⟩
  norm_num

end KVMemoryIntent
