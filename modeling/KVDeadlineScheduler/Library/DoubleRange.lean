-- SUMMARY: Doubles and integers: what rounding keeps of the order, and a division of integers that may overflow.
import KVDeadlineScheduler.Library.Double

/-!
# The range of doubles

An integer is converted to the nearest double and two integers are divided with one
rounding. Both fail where the result would be rounded past the largest double. Below
`2 ^ 53` rounding passes over no integer, so a rounded quotient has the ceiling of
the exact one.
-/

namespace Double

/-- The number is rounded to a finite double. -/
def Fits (x : ℚ) : Prop := |nearest x| < 2 ^ 1024

instance (x : ℚ) : Decidable (Fits x) := inferInstanceAs (Decidable (_ < _))

/-- The quotient of two integers, rounded once. -/
def divide (a b : ℤ) : Option ℚ := if Fits (a / b) then some (nearest (a / b)) else none

/-! ## Rounding to integers -/

theorem abs_roundHalfEven_sub_le (x : ℚ) : |(roundHalfEven x : ℚ) - x| ≤ 1 / 2 := by
  unfold roundHalfEven
  split
  · rename_i hhalf
    have hfloor : (⌊x⌋ : ℚ) - x = -(1 / 2) := by rw [← hhalf.1, ← Int.self_sub_floor]; ring
    rw [hfloor, abs_neg, abs_of_pos (by norm_num)]
  · rw [abs_sub_comm]
    exact abs_sub_round x

theorem le_roundHalfEven {x : ℚ} {n : ℤ} (h : n ≤ x) : n ≤ roundHalfEven x := by
  by_contra hlt
  have hle : (roundHalfEven x : ℚ) ≤ n - 1 := by exact_mod_cast (by omega : roundHalfEven x ≤ n - 1)
  have herror := (abs_le.mp (abs_roundHalfEven_sub_le x)).1
  linarith

theorem roundHalfEven_le {x : ℚ} {n : ℤ} (h : x ≤ n) : roundHalfEven x ≤ n := by
  by_contra hlt
  have hle : (n : ℚ) + 1 ≤ roundHalfEven x := by exact_mod_cast (by omega : n + 1 ≤ roundHalfEven x)
  have herror := (abs_le.mp (abs_roundHalfEven_sub_le x)).2
  linarith

/-! ## Rounding to doubles -/

section Rounding

variable {x : ℚ} {n : ℤ}

/-- Rounding does not pass over a multiple of the last bit. -/
theorem mul_le_nearestAbs (h : n * 2 ^ lastBit x ≤ x) : n * 2 ^ lastBit x ≤ nearestAbs x := by
  have hpos : (0 : ℚ) < 2 ^ lastBit x := zpow_pos two_pos _
  have hrounded : n ≤ roundHalfEven (x / 2 ^ lastBit x) := le_roundHalfEven ((le_div_iff₀ hpos).mpr h)
  exact mul_le_mul_of_nonneg_right (by exact_mod_cast hrounded) hpos.le

theorem nearestAbs_le_mul (h : x ≤ n * 2 ^ lastBit x) : nearestAbs x ≤ n * 2 ^ lastBit x := by
  have hpos : (0 : ℚ) < 2 ^ lastBit x := zpow_pos two_pos _
  have hrounded : roundHalfEven (x / 2 ^ lastBit x) ≤ n := roundHalfEven_le ((div_le_iff₀ hpos).mpr h)
  exact mul_le_mul_of_nonneg_right (by exact_mod_cast hrounded) hpos.le

theorem nearest_nonneg (hx : 0 ≤ x) : 0 ≤ nearest x := by
  rw [nearest_of_nonneg hx]
  have hzero : ((0 : ℤ) : ℚ) * 2 ^ lastBit x ≤ x := by simpa using hx
  simpa using mul_le_nearestAbs hzero

/-- The exponents between the last bit and a power of two. -/
theorem exists_mul_of_le {m : ℤ} (h : lastBit x ≤ m) : ∃ k : ℤ, (2 : ℚ) ^ m = k * 2 ^ lastBit x := by
  obtain ⟨k, hk⟩ := Int.le.dest h
  refine ⟨2 ^ k, ?_⟩
  rw [Int.cast_pow, Int.cast_ofNat, ← zpow_natCast, ← zpow_add₀ two_ne_zero, add_comm, hk]

/-- Rounding does not pass over a power of two that is no smaller than the last bit. -/
theorem nearest_le_pow {m : ℤ} (hx : 0 ≤ x) (hm : lastBit x ≤ m) (h : x ≤ 2 ^ m) : nearest x ≤ 2 ^ m := by
  obtain ⟨k, hk⟩ := exists_mul_of_le hm
  rw [nearest_of_nonneg hx, hk]
  exact nearestAbs_le_mul (hk ▸ h)

theorem pow_le_nearest {m : ℤ} (hx : 0 ≤ x) (hm : lastBit x ≤ m) (h : 2 ^ m ≤ x) : 2 ^ m ≤ nearest x := by
  obtain ⟨k, hk⟩ := exists_mul_of_le hm
  rw [nearest_of_nonneg hx, hk]
  exact mul_le_nearestAbs (hk ▸ h)

theorem lastBit_le {m : ℤ} (hx : 0 < x) (h : x < 2 ^ (m + 53)) (hm : -1074 ≤ m) : lastBit x ≤ m := by
  have hlog : Int.log 2 x < m + 53 := (Int.lt_zpow_iff_log_lt (by decide) hx).mp (by exact_mod_cast h)
  exact max_le (by omega) hm

/-- Below `2 ^ 53` rounding passes over no integer. -/
theorem nearest_le_intCast (hx : 0 ≤ x) (hlt : x < 2 ^ 53) (h : x ≤ n) : nearest x ≤ n := by
  rcases hx.eq_or_lt with rfl | hpos
  · rwa [nearest_zero]
  · have hlast : lastBit x ≤ 0 := lastBit_le hpos (by exact_mod_cast hlt) (by decide)
    obtain ⟨k, hk⟩ := exists_mul_of_le hlast
    have heq : (n : ℚ) = (n * k : ℤ) * 2 ^ lastBit x := by rw [Int.cast_mul, mul_assoc, ← hk]; simp
    rw [nearest_of_nonneg hx, heq]
    exact nearestAbs_le_mul (heq ▸ h)

/-- The relative error of a number that is not subnormal. -/
theorem abs_nearest_sub_le (h : 2 ^ (-1022 : ℤ) ≤ x) : |nearest x - x| ≤ x / 2 ^ 53 := by
  have hpos : 0 < x := (zpow_pos two_pos _).trans_le h
  have hbit : (0 : ℚ) < 2 ^ lastBit x := zpow_pos two_pos _
  -- the last bit is the 53rd below the leading one
  have hlog : -1022 ≤ Int.log 2 x := (Int.zpow_le_iff_le_log (by decide) hpos).mp (by exact_mod_cast h)
  have hlast : lastBit x = Int.log 2 x - 52 := max_eq_left (by omega)
  have hleading : (2 : ℚ) ^ lastBit x * 2 ^ 52 ≤ x := by
    rw [hlast, ← zpow_natCast, ← zpow_add₀ two_ne_zero]
    have hle := Int.zpow_log_le_self (b := 2) (r := x) (by decide) hpos
    have hexp : Int.log 2 x - 52 + ((52 : ℕ) : ℤ) = Int.log 2 x := by push_cast; ring
    rw [hexp]
    exact_mod_cast hle
  have herror := abs_roundHalfEven_sub_le (x / 2 ^ lastBit x)
  have hscaled : nearestAbs x - x = (roundHalfEven (x / 2 ^ lastBit x) - x / 2 ^ lastBit x) * 2 ^ lastBit x := by
    rw [sub_mul, div_mul_cancel₀ _ hbit.ne', nearestAbs]
  rw [nearest_of_nonneg hpos.le, hscaled, abs_mul, abs_of_pos hbit]
  calc |(roundHalfEven (x / 2 ^ lastBit x) : ℚ) - x / 2 ^ lastBit x| * 2 ^ lastBit x
      ≤ 1 / 2 * 2 ^ lastBit x := mul_le_mul_of_nonneg_right herror hbit.le
    _ = 2 ^ lastBit x * 2 ^ 52 / 2 ^ 53 := by ring
    _ ≤ x / 2 ^ 53 := div_le_div_of_nonneg_right hleading (by positivity)

end Rounding

/-! ## Overflow -/

theorem abs_nearest (x : ℚ) : |nearest x| = nearest |x| := by
  rcases le_or_gt 0 x with hx | hx
  · rw [abs_of_nonneg hx, abs_of_nonneg (nearest_nonneg hx)]
  · have hneg : nearest x = -nearest (-x) := by
      conv_lhs => rw [← neg_neg x]
      exact nearest_neg (neg_nonneg.mpr hx.le)
    rw [abs_of_neg hx, hneg, abs_neg, abs_of_nonneg (nearest_nonneg (neg_nonneg.mpr hx.le))]

theorem fits_of_abs_le {x : ℚ} (h : |x| ≤ 2 ^ 1023) : Fits x := by
  unfold Fits
  rw [abs_nearest]
  rcases (abs_nonneg x).eq_or_lt with hzero | hpos
  · rw [← hzero, nearest_zero]
    positivity
  · have hlast : lastBit |x| ≤ 1023 := by
      refine lastBit_le hpos (h.trans_lt ?_) (by decide)
      exact_mod_cast pow_lt_pow_right₀ (one_lt_two : (1 : ℚ) < 2) (by decide : 1023 < 1023 + 53)
    have hrounded : nearest |x| ≤ 2 ^ (1023 : ℤ) := nearest_le_pow hpos.le hlast (by exact_mod_cast h)
    have hlt : (2 : ℚ) ^ (1023 : ℤ) < 2 ^ 1024 := by
      exact_mod_cast pow_lt_pow_right₀ (one_lt_two : (1 : ℚ) < 2) (by decide : 1023 < 1024)
    exact hrounded.trans_lt hlt

theorem not_fits_of_le {x : ℚ} (h : 2 ^ 1024 ≤ x) : ¬Fits x := by
  have hpos : 0 < x := lt_of_lt_of_le (by positivity) h
  unfold Fits
  rw [not_lt, abs_of_nonneg (nearest_nonneg hpos.le)]
  -- the leading power of two is kept
  have hleading : (2 : ℚ) ^ Int.log 2 x ≤ x := by
    exact_mod_cast Int.zpow_log_le_self (b := 2) (r := x) (by decide) hpos
  have hlog : 1024 ≤ Int.log 2 x := (Int.zpow_le_iff_le_log (by decide) hpos).mp (by exact_mod_cast h)
  have hlast : lastBit x ≤ Int.log 2 x := max_le (by omega) (by omega)
  have hpow : (2 : ℚ) ^ 1024 ≤ 2 ^ Int.log 2 x := by
    rw [← zpow_natCast]
    exact zpow_le_zpow_right₀ one_le_two (by exact_mod_cast hlog)
  exact hpow.trans (pow_le_nearest hpos.le hlast hleading)

/-! ## Ceilings of quotients -/

section Ceilings

variable {a b : ℤ}

theorem quotient_lt (ha : 0 ≤ a) (hlt : a < 2 ^ 53) (hb : 0 < b) : (a : ℚ) / b < 2 ^ 53 := by
  have hone : (1 : ℚ) ≤ b := by exact_mod_cast hb
  have hle : (a : ℚ) / b ≤ a := div_le_self (by exact_mod_cast ha) hone
  exact hle.trans_lt (by exact_mod_cast hlt)

theorem fits_div (ha : 0 ≤ a) (hlt : a < 2 ^ 53) (hb : 0 < b) : Fits ((a : ℚ) / b) := by
  have hnonneg : (0 : ℚ) ≤ a / b := div_nonneg (by exact_mod_cast ha) (by exact_mod_cast hb.le)
  have hle : (2 : ℚ) ^ 53 ≤ 2 ^ 1023 := pow_le_pow_right₀ one_le_two (by decide)
  refine fits_of_abs_le ?_
  rw [abs_of_nonneg hnonneg]
  exact (quotient_lt ha hlt hb).le.trans hle

theorem divide_eq (ha : 0 ≤ a) (hlt : a < 2 ^ 53) (hb : 0 < b) : divide a b = some (nearest (a / b)) :=
  if_pos (fits_div ha hlt hb)

/-- A quotient of at least one is at least one part of the divisor away from the
integer below its ceiling, and the error is smaller than that. -/
theorem ceil_nearest_div (hb : 0 < b) (hle : b ≤ a) (hlt : a < 2 ^ 53) :
    ⌈nearest ((a : ℚ) / b)⌉ = ⌈(a : ℚ) / b⌉ := by
  have hb' : (0 : ℚ) < b := by exact_mod_cast hb
  have hone : (1 : ℚ) ≤ a / b := (one_le_div hb').mpr (by exact_mod_cast hle)
  have hupper : nearest ((a : ℚ) / b) ≤ ⌈(a : ℚ) / b⌉ :=
    nearest_le_intCast (zero_le_one.trans hone) (quotient_lt (hb.le.trans hle) hlt hb) (Int.le_ceil _)
  have hlower : (⌈(a : ℚ) / b⌉ : ℚ) - 1 < nearest ((a : ℚ) / b) := by
    have hsmall : (2 : ℚ) ^ (-1022 : ℤ) ≤ a / b := (zpow_le_one_of_nonpos₀ one_le_two (by decide)).trans hone
    have herror := (abs_le.mp (abs_nearest_sub_le hsmall)).1
    have hgap : (a : ℚ) / b / 2 ^ 53 < 1 / b := by
      rw [div_div, div_lt_div_iff₀ (by positivity) hb', one_mul, mul_comm (b : ℚ)]
      exact mul_lt_mul_of_pos_right (by exact_mod_cast hlt) hb'
    have hbelow : (⌈(a : ℚ) / b⌉ : ℚ) - 1 + 1 / b ≤ a / b := by
      have hint : (⌈(a : ℚ) / b⌉ - 1) * b < a := by
        have hceil : (⌈(a : ℚ) / b⌉ : ℚ) - 1 < a / b := by linarith [Int.ceil_lt_add_one ((a : ℚ) / b)]
        rw [lt_div_iff₀ hb'] at hceil
        exact_mod_cast hceil
      rw [le_div_iff₀ hb', add_mul, one_div, inv_mul_cancel₀ hb'.ne']
      exact_mod_cast hint
    linarith
  refine le_antisymm (Int.ceil_le.mpr hupper) ?_
  have hceil : (⌈(a : ℚ) / b⌉ : ℚ) - 1 < ⌈nearest ((a : ℚ) / b)⌉ := hlower.trans_le (Int.le_ceil _)
  have hceil' : ⌈(a : ℚ) / b⌉ - 1 < ⌈nearest ((a : ℚ) / b)⌉ := by exact_mod_cast hceil
  omega

/-- Quotients below one have a ceiling of at most one, rounded or not. -/
theorem max_one_ceil_nearest_div (ha : 0 ≤ a) (hlt : a < 2 ^ 53) (hb : 0 < b) :
    max 1 ⌈nearest ((a : ℚ) / b)⌉ = max 1 ⌈(a : ℚ) / b⌉ := by
  rcases le_or_gt b a with hle | hgt
  · rw [ceil_nearest_div hb hle hlt]
  · have hb' : (0 : ℚ) < b := by exact_mod_cast hb
    have hone : (a : ℚ) / b ≤ (1 : ℤ) := by
      rw [Int.cast_one]
      exact (div_le_one hb').mpr (by exact_mod_cast hgt.le)
    have hrounded : nearest ((a : ℚ) / b) ≤ (1 : ℤ) :=
      nearest_le_intCast (div_nonneg (by exact_mod_cast ha) hb'.le) (quotient_lt ha hlt hb) hone
    rw [max_eq_left (Int.ceil_le.mpr hrounded), max_eq_left (Int.ceil_le.mpr hone)]

/-- Rounding a quotient of positive integers leaves it positive, if it is not subnormal. -/
theorem one_le_ceil_nearest {x : ℚ} (h : 2 ^ (-1022 : ℤ) ≤ x) : 1 ≤ ⌈nearest x⌉ := by
  have hpos : 0 < x := (zpow_pos two_pos _).trans_le h
  have herror := (abs_le.mp (abs_nearest_sub_le h)).1
  have hsmall : x / 2 ^ 53 < x := div_lt_self hpos (by norm_num)
  have hrounded : 0 < nearest x := by linarith
  exact Int.one_le_ceil_iff.mpr hrounded

/-- A number that exceeds one by more than the relative error is not rounded to one. -/
theorem ceil_nearest_le_one_iff {x : ℚ} (h : 0 ≤ x) (hgap : x ≤ 1 ∨ 65 / 64 ≤ x) :
    ⌈nearest x⌉ ≤ 1 ↔ x ≤ 1 := by
  rw [Int.ceil_le, Int.cast_one]
  constructor
  · intro hrounded
    rcases hgap with hle | hge
    · exact hle
    · have hsmall : (2 : ℚ) ^ (-1022 : ℤ) ≤ x :=
        (zpow_le_one_of_nonpos₀ one_le_two (by decide)).trans (le_trans (by norm_num) hge)
      have herror := (abs_le.mp (abs_nearest_sub_le hsmall)).1
      have hlost : x / 2 ^ 53 ≤ x / 130 := div_le_div_of_nonneg_left h (by norm_num) (by norm_num)
      linarith
  · intro hle
    have hle' : x ≤ (1 : ℤ) := by simpa using hle
    have hlt : x < 2 ^ 53 := hle.trans_lt (by norm_num)
    simpa using nearest_le_intCast h hlt hle'

end Ceilings

end Double
