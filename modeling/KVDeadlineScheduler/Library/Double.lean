-- SUMMARY: Double-precision numbers as rationals: rounding to the nearest one, and the shortest decimal literal that rounds back.
import Mathlib.Algebra.Order.Round
import Mathlib.Data.Int.Log
import Mathlib.Data.List.DropRight
import Mathlib.Data.List.MinMax
import Mathlib.Data.Rat.Floor
import KVDeadlineScheduler.Library.Decimal

/-!
# Doubles

A finite double is a rational `m * 2 ^ e` with a 53-bit `m`. The literal of a
double has as few digits as any decimal that rounds to it, and is the closest
of these. Seventeen digits are always enough, but the search only relies on the
double being a decimal itself.
-/

namespace Double

open Decimal

/-- The rational is a finite double. -/
def IsDouble (x : ℚ) : Prop := ∃ m e : ℤ, |m| < 2 ^ 53 ∧ -1074 ≤ e ∧ e ≤ 971 ∧ x = m * 2 ^ e

theorem IsDouble.abs {x : ℚ} (h : IsDouble x) : IsDouble |x| := by
  obtain ⟨m, e, hm, hmin, hmax, rfl⟩ := h
  refine ⟨|m|, e, by rwa [abs_abs], hmin, hmax, ?_⟩
  rw [abs_mul, Int.cast_abs, abs_of_pos (zpow_pos two_pos e : (0 : ℚ) < 2 ^ e)]

/-! ## Rounding -/

/-- To the nearest integer, and to the even one of two. -/
def roundHalfEven (x : ℚ) : ℤ := if Int.fract x = 1 / 2 ∧ Even ⌊x⌋ then ⌊x⌋ else round x

/-- The exponent of the last of 53 bits, or of the smallest subnormal number. -/
def lastBit (x : ℚ) : ℤ := max (Int.log 2 x - 52) (-1074)

def nearestAbs (x : ℚ) : ℚ := roundHalfEven (x / 2 ^ lastBit x) * 2 ^ lastBit x

/-- The nearest double, with an exponent that has no upper bound. -/
def nearest (x : ℚ) : ℚ := if x < 0 then -nearestAbs (-x) else nearestAbs x

@[simp] theorem roundHalfEven_intCast (n : ℤ) : roundHalfEven n = n := by
  unfold roundHalfEven
  rw [if_neg]
  · exact round_intCast n
  · rw [Int.fract_intCast]
    norm_num

@[simp] theorem nearest_zero : nearest 0 = 0 := by
  have hround : roundHalfEven 0 = 0 := roundHalfEven_intCast 0
  simp [nearest, nearestAbs, hround]

theorem nearest_of_nonneg {x : ℚ} (hx : 0 ≤ x) : nearest x = nearestAbs x := if_neg (not_lt.mpr hx)

theorem nearest_neg {x : ℚ} (hx : 0 ≤ x) : nearest (-x) = -nearest x := by
  rcases hx.eq_or_lt with rfl | hpos
  · simp
  · rw [nearest_of_nonneg hx, nearest, if_pos (neg_neg_of_pos hpos), neg_neg]

theorem abs_lt_of_mantissa {m : ℤ} (e : ℤ) (hm : |m| < 2 ^ 53) : |(m : ℚ) * 2 ^ e| < 2 ^ (53 + e) := by
  have hpos : (0 : ℚ) < 2 ^ e := zpow_pos two_pos e
  have hm' : |(m : ℚ)| < 2 ^ (53 : ℤ) := by exact_mod_cast hm
  rw [abs_mul, abs_of_pos hpos, zpow_add₀ two_ne_zero]
  exact mul_lt_mul_of_pos_right hm' hpos

theorem IsDouble.abs_lt {x : ℚ} (h : IsDouble x) : |x| < 2 ^ 1024 := by
  obtain ⟨m, e, hm, -, hmax, rfl⟩ := h
  have hlt := abs_lt_of_mantissa e hm
  have hle : (2 : ℚ) ^ (53 + e) ≤ 2 ^ (1024 : ℤ) := zpow_le_zpow_right₀ one_le_two (by omega)
  exact_mod_cast hlt.trans_le hle

/-- A number that is a multiple of its last bit is rounded to itself. -/
theorem nearestAbs_of_eq {x : ℚ} {n : ℤ} (h : x = n * 2 ^ lastBit x) : nearestAbs x = x := by
  have hpos : (2 : ℚ) ^ lastBit x ≠ 0 := (zpow_pos two_pos _).ne'
  have hscaled : x / 2 ^ lastBit x = n := by rw [div_eq_iff hpos, ← h]
  rw [nearestAbs, hscaled, roundHalfEven_intCast, ← h]

/-- Rounding leaves positive doubles alone. -/
theorem nearest_of_isDouble {x : ℚ} (h : IsDouble x) (hx : 0 < x) : nearest x = x := by
  obtain ⟨m, e, hm, hmin, -, heq⟩ := h
  rw [nearest_of_nonneg hx.le]
  -- the last bit of the number is not above the exponent that it is given with
  have hlast : lastBit x ≤ e := by
    have hlog : Int.log 2 x < 53 + e := by
      rw [← Int.lt_zpow_iff_log_lt (by decide) hx, ← abs_of_pos hx, heq]
      exact_mod_cast abs_lt_of_mantissa e hm
    exact max_le (by omega) hmin
  obtain ⟨k, hk⟩ := Int.le.dest hlast
  refine nearestAbs_of_eq (n := m * 2 ^ k) ?_
  rw [Int.cast_mul, Int.cast_pow, Int.cast_ofNat, mul_assoc, ← zpow_natCast, ← zpow_add₀ two_ne_zero,
    add_comm, hk]
  exact heq

/-! ## The shortest decimal -/

/-- The number `d * 10 ^ e`. -/
def decimalValue (p : ℕ × ℤ) : ℚ := p.1 * 10 ^ p.2

/-- The decimals of `n + 1` digits on either side of a positive number, the even
one first. -/
def neighbours (x : ℚ) (n : ℕ) : List (ℕ × ℤ) :=
  let e := Int.log 10 x - n
  let low := ⌊x / 10 ^ e⌋₊
  let high := ⌈x / 10 ^ e⌉₊
  if Even low then [(low, e), (high, e)] else [(high, e), (low, e)]

/-- The closest of those that round to the number. -/
def closest (x : ℚ) (n : ℕ) : Option (ℕ × ℤ) :=
  ((neighbours x n).filter fun p => nearest (decimalValue p) = x).argmin fun p => |decimalValue p - x|

/-- The decimal of the least number of digits that rounds to the number. -/
def shortest (x : ℚ) : ℕ × ℤ := ((List.range 2100).findSome? (closest x)).getD (0, 0)

theorem nearest_of_closest {x : ℚ} {n : ℕ} {p : ℕ × ℤ} (h : closest x n = some p) :
    nearest (decimalValue p) = x := by
  have hmem := List.argmin_mem h
  rw [List.mem_filter] at hmem
  exact of_decide_eq_true hmem.2

/-- A dyadic number is a decimal itself. -/
theorem exists_decimal (m : ℕ) {e : ℤ} {k : ℕ} (he : -k ≤ e) :
    ∃ d : ℕ, (m : ℚ) * 2 ^ e = d * 10 ^ (-k : ℤ) := by
  obtain ⟨j, hj⟩ := Int.le.dest he
  refine ⟨m * 2 ^ j * 5 ^ k, ?_⟩
  have hten : (10 : ℚ) ^ (-k : ℤ) = 2 ^ (-k : ℤ) * (5 ^ k)⁻¹ := by
    rw [show (10 : ℚ) = 2 * 5 by norm_num, mul_zpow, zpow_neg 5, zpow_natCast 5]
  have hfive : (5 : ℚ) ^ k ≠ 0 := pow_ne_zero k (by norm_num)
  rw [hten, ← hj, zpow_add₀ two_ne_zero, zpow_natCast]
  push_cast
  field_simp

/-- With enough digits the neighbours of a decimal are the decimal itself. -/
theorem closest_isSome {x : ℚ} {d : ℕ} {e : ℤ} {n : ℕ} (hx : x = d * 10 ^ e)
    (hn : Int.log 10 x - n = e) (hnearest : nearest x = x) : (closest x n).isSome := by
  have hpos : (10 : ℚ) ^ e ≠ 0 := (zpow_pos (by norm_num) e).ne'
  have hscaled : x / 10 ^ e = d := by rw [div_eq_iff hpos, hx]
  have hmem : (d, e) ∈ (neighbours x n).filter fun p => nearest (decimalValue p) = x := by
    rw [List.mem_filter]
    refine ⟨?_, ?_⟩
    · simp only [neighbours, hn, hscaled, Nat.floor_natCast, Nat.ceil_natCast]
      split <;> simp
    · rw [decide_eq_true_iff, decimalValue, ← hx]
      exact hnearest
  rw [Option.isSome_iff_ne_none]
  intro hnone
  rw [closest, List.argmin_eq_none] at hnone
  rw [hnone] at hmem
  cases hmem

theorem exists_closest {x : ℚ} (h : IsDouble x) (hx : 0 < x) : ∃ n < 2100, (closest x n).isSome := by
  have hnearest := nearest_of_isDouble h hx
  have hlt := h.abs_lt
  obtain ⟨m, e, -, hmin, -, heq⟩ := h
  have hm : 0 < m := by
    rw [heq, mul_pos_iff_of_pos_right (zpow_pos two_pos e)] at hx
    exact Int.cast_pos.mp hx
  obtain ⟨m, rfl⟩ := Int.eq_ofNat_of_zero_le hm.le
  rw [Int.cast_natCast] at heq
  obtain ⟨d, hd⟩ := exists_decimal m (k := 1074) hmin
  have hlow : -1074 ≤ Int.log 10 x := by
    have hone : (1 : ℚ) ≤ d := by
      rw [heq, hd, mul_pos_iff_of_pos_right (zpow_pos (by norm_num) _)] at hx
      exact_mod_cast hx
    rw [← Int.zpow_le_iff_le_log (by decide) hx, heq, hd]
    exact le_mul_of_one_le_left (zpow_pos (by norm_num) _).le hone
  have hhigh : Int.log 10 x < 1024 := by
    rw [← Int.lt_zpow_iff_log_lt (by decide) hx]
    calc x ≤ |x| := le_abs_self x
      _ < 2 ^ 1024 := hlt
      _ ≤ 10 ^ 1024 := pow_le_pow_left₀ zero_le_two (by norm_num) 1024
      _ = ((10 : ℕ) : ℚ) ^ (1024 : ℤ) := by rw [Nat.cast_ofNat, ← zpow_natCast, Nat.cast_ofNat]
  refine ⟨(Int.log 10 x + 1074).toNat, by omega, closest_isSome (heq.trans hd) ?_ hnearest⟩
  push_cast
  omega

/-- The shortest decimal of a positive double rounds to it. -/
theorem nearest_shortest {x : ℚ} (h : IsDouble x) (hx : 0 < x) :
    nearest (decimalValue (shortest x)) = x := by
  obtain ⟨n, hn, hsome⟩ := exists_closest h hx
  have hfound : ((List.range 2100).findSome? (closest x)).isSome :=
    List.findSome?_isSome_iff.mpr ⟨n, List.mem_range.mpr hn, hsome⟩
  obtain ⟨p, hp⟩ := Option.isSome_iff_exists.mp hfound
  obtain ⟨k, -, hk⟩ := List.exists_of_findSome?_eq_some hp
  rw [shortest, hp]
  exact nearest_of_closest hk

/-! ## Literals -/

/-- The digits without the zeros at the end. -/
def significant (ds : List ℕ) : List ℕ := ds.rdropWhile (· = 0)

/-- The digits `ds` with the decimal point behind the first `point` of them. Numbers
that are large or small get an exponent. -/
def format (negative : Bool) (ds : List ℕ) (point : ℤ) : Literal :=
  if -4 < point ∧ point ≤ 16 then
    if point ≤ 0 then
      { negative := negative, int := [0], frac := List.replicate (-point).toNat 0 ++ ds }
    else if ds.length ≤ point then
      { negative := negative, int := ds ++ List.replicate (point - ds.length).toNat 0, frac := [0] }
    else
      { negative := negative, int := ds.take point.toNat, frac := ds.drop point.toNat }
  else
    { negative := negative, int := ds.take 1, frac := ds.drop 1, exp := some (point - 1) }

/-- The literal that `repr` writes. -/
def repr (x : ℚ) : Literal :=
  if x = 0 then
    { negative := false, int := [0], frac := [0] }
  else
    let (d, e) := shortest |x|
    let ds := natDigits d
    format (x < 0) (significant ds) (e + ds.length)

section Literals

variable {ds : List ℕ} {point : ℤ} {negative : Bool}

/-- The number with the point in front of the digits `ds`, moved by `point` places. -/
def pointValue (ds : List ℕ) (point : ℤ) : ℚ := ofDigits ds * 10 ^ (point - ds.length)

theorem exists_significant (ds : List ℕ) : ∃ k, significant ds ++ List.replicate k 0 = ds := by
  refine ⟨(ds.rtakeWhile (· = 0)).length, ?_⟩
  have hzeros : ds.rtakeWhile (· = 0) = List.replicate (ds.rtakeWhile (· = 0)).length 0 :=
    List.eq_replicate_of_mem fun d hd => by simpa using List.mem_rtakeWhile_imp hd
  rw [← hzeros]
  exact List.rdropWhile_append_rtakeWhile

theorem pointValue_significant (ds : List ℕ) (point : ℤ) :
    pointValue (significant ds) point = pointValue ds point := by
  obtain ⟨k, hk⟩ := exists_significant ds
  generalize significant ds = es at hk
  subst hk
  unfold pointValue
  rw [ofDigits_append, ofDigits_replicate_zero, add_zero, List.length_append, List.length_replicate]
  push_cast
  rw [mul_assoc, ← zpow_natCast, ← zpow_add₀ (by norm_num)]
  congr 2
  ring

theorem value_format (hne : ds ≠ []) :
    (format negative ds point).value = Literal.sign negative * pointValue ds point := by
  have hlen : 0 < ds.length := List.length_pos_of_ne_nil hne
  unfold format Literal.value pointValue
  split
  · split
    · -- 0.000ds
      have hdigits : ofDigits ([0] ++ (List.replicate (-point).toNat 0 ++ ds)) = ofDigits ds := by
        rw [ofDigits_append, ofDigits_append]
        simp [ofDigits]
      have hplaces : (none : Option ℤ).getD 0 - ((List.replicate (-point).toNat 0 ++ ds).length : ℤ) =
          point - ds.length := by
        simp only [Option.getD_none, List.length_append, List.length_replicate]
        omega
      rw [hdigits, hplaces, mul_assoc]
    · split
      · -- ds000.0
        rename_i hlarge
        have hdigits : ofDigits (ds ++ List.replicate (point - ds.length).toNat 0 ++ [0]) =
            ofDigits ds * 10 ^ ((point - ds.length).toNat + 1) := by
          rw [List.append_assoc, ← List.replicate_succ', ofDigits_append, ofDigits_replicate_zero, add_zero,
            List.length_replicate]
        rw [hdigits]
        push_cast
        rw [mul_assoc, mul_assoc, ← zpow_natCast, ← zpow_add₀ (by norm_num)]
        congr 3
        simp only [Option.getD_none, List.length_singleton]
        omega
      · -- d.ddd
        have hplaces : (none : Option ℤ).getD 0 - ((ds.drop point.toNat).length : ℤ) = point - ds.length := by
          simp only [Option.getD_none, List.length_drop]
          omega
        rw [List.take_append_drop, hplaces, mul_assoc]
  · -- d.ddde+XX
    have hplaces : (some (point - 1)).getD 0 - ((ds.drop 1).length : ℤ) = point - ds.length := by
      simp only [Option.getD_some, List.length_drop]
      omega
    rw [List.take_append_drop, hplaces, mul_assoc]

theorem format_wellFormed {d : ℕ} (hd : d ≠ 0) (hlt : ∀ e ∈ d :: ds, e < 10) :
    (format negative (d :: ds) point).WellFormed := by
  have htake : ∀ n : ℕ, ∀ e ∈ (d :: ds).take n, e < 10 := fun n e he => hlt e (List.mem_of_mem_take he)
  have hdrop : ∀ n : ℕ, ∀ e ∈ (d :: ds).drop n, e < 10 := fun n e he => hlt e (List.mem_of_mem_drop he)
  have hzeros : ∀ n : ℕ, ∀ e ∈ List.replicate n 0, e < 10 := by
    intro n e he
    rw [List.eq_of_mem_replicate he]
    omega
  have happend : ∀ xs ys : List ℕ, (∀ e ∈ xs, e < 10) → (∀ e ∈ ys, e < 10) → ∀ e ∈ xs ++ ys, e < 10 := by
    intro xs ys hxs hys e he
    rcases List.mem_append.mp he with he | he
    · exact hxs e he
    · exact hys e he
  unfold format
  split
  · split
    · exact ⟨⟨0, [], rfl, fun _ => rfl⟩, hzeros 1, happend _ _ (hzeros _) hlt⟩
    · split
      · exact ⟨⟨d, _, rfl, fun h => absurd h hd⟩, happend _ _ hlt (hzeros _), hzeros 1⟩
      · rename_i hpoint _
        obtain ⟨n, hn⟩ : ∃ n, point.toNat = n + 1 := ⟨point.toNat - 1, by omega⟩
        exact ⟨⟨d, ds.take n, by rw [hn, List.take_succ_cons], fun h => absurd h hd⟩, htake _, hdrop _⟩
  · exact ⟨⟨d, [], rfl, fun h => absurd h hd⟩, htake 1, hdrop 1⟩

theorem format_isFloat (hne : ds ≠ []) : (format negative ds point).isFloat = true := by
  unfold format Literal.isFloat
  split
  · split
    · simp [hne]
    · split
      · simp
      · rename_i hshort
        simp only [not_le] at hshort
        simp
        omega
  · simp

end Literals

/-- The first digit of a number is significant. -/
theorem significant_cons {d : ℕ} (ds : List ℕ) (hd : d ≠ 0) :
    ∃ es, significant (d :: ds) = d :: es ∧ ∀ e ∈ d :: es, e ∈ d :: ds := by
  obtain ⟨k, hk⟩ := exists_significant (d :: ds)
  generalize significant (d :: ds) = es at hk
  cases es with
  | nil =>
    have hmem : d ∈ List.replicate k 0 := by
      rw [List.nil_append] at hk
      rw [hk]
      exact List.mem_cons_self
    exact absurd (List.eq_of_mem_replicate hmem) hd
  | cons e es =>
    obtain ⟨rfl, hds⟩ := List.cons_eq_cons.mp hk
    exact ⟨es, rfl, fun a ha => hk ▸ List.mem_append_left _ ha⟩

/-- The literal of a double other than 0 is its shortest decimal, with a first digit
that is not 0. -/
theorem repr_eq {x : ℚ} (h : IsDouble x) (hx : x ≠ 0) :
    ∃ d ds point, repr x = format (x < 0) (d :: ds) point ∧ d ≠ 0 ∧ (∀ e ∈ d :: ds, e < 10) ∧
      nearest (pointValue (d :: ds) point) = |x| := by
  have hshortest := nearest_shortest h.abs (abs_pos.mpr hx)
  obtain ⟨d, ds, hds, hzero⟩ := natDigits_eq_cons (shortest |x|).1
  have hvalue : pointValue (d :: ds) ((shortest |x|).2 + (d :: ds).length) = decimalValue (shortest |x|) := by
    rw [pointValue, ← hds, ofDigits_natDigits, add_sub_cancel_right, decimalValue]
  have hd : d ≠ 0 := by
    intro hd0
    rw [decimalValue, (hzero hd0).2, Nat.cast_zero, zero_mul, nearest_zero] at hshortest
    exact hx (abs_eq_zero.mp hshortest.symm)
  obtain ⟨es, hes, hmem⟩ := significant_cons ds hd
  refine ⟨d, es, (shortest |x|).2 + (d :: ds).length, ?_, hd, fun e he => ?_, ?_⟩
  · rw [repr, if_neg hx, ← hes, ← hds]
  · exact lt_of_mem_natDigits (hds ▸ hmem e he)
  · rw [← hes, pointValue_significant, hvalue, hshortest]

theorem repr_wellFormed {x : ℚ} (h : IsDouble x) : (repr x).WellFormed := by
  by_cases hx : x = 0
  · rw [repr, if_pos hx]
    exact ⟨⟨0, [], rfl, fun _ => rfl⟩, by simp, by simp⟩
  · obtain ⟨d, ds, point, hrepr, hd, hlt, -⟩ := repr_eq h hx
    rw [hrepr]
    exact format_wellFormed hd hlt

/-- A double is not written as an integer. -/
theorem repr_isFloat {x : ℚ} (h : IsDouble x) : (repr x).isFloat = true := by
  by_cases hx : x = 0
  · rw [repr, if_pos hx]
    rfl
  · obtain ⟨d, ds, point, hrepr, -⟩ := repr_eq h hx
    rw [hrepr]
    exact format_isFloat (List.cons_ne_nil d ds)

/-- What `repr` writes for a double rounds to it. -/
theorem nearest_value_repr {x : ℚ} (h : IsDouble x) : nearest (repr x).value = x := by
  by_cases hx : x = 0
  · rw [repr, if_pos hx, hx]
    simp [Literal.value, ofDigits, Nat.ofDigits_cons]
  · obtain ⟨d, ds, point, hrepr, -, -, hnearest⟩ := repr_eq h hx
    rw [hrepr, value_format (List.cons_ne_nil d ds)]
    by_cases hneg : x < 0
    · have hnonneg : 0 ≤ pointValue (d :: ds) point :=
        mul_nonneg (Nat.cast_nonneg _) (zpow_nonneg (by norm_num) _)
      simp only [hneg, decide_true, Literal.sign, if_true]
      rw [Int.cast_neg, Int.cast_one, neg_one_mul, nearest_neg hnonneg, hnearest, abs_of_neg hneg, neg_neg]
    · simp only [hneg, decide_false, Literal.sign, Bool.false_eq_true, if_false]
      rw [Int.cast_one, one_mul, hnearest, abs_of_nonneg (not_lt.mp hneg)]

/-- One tenth is not a double, and the double closest to it is written as 0.1. -/
example : (repr (nearest (1 / 10))).write = ['0', '.', '1'] := by
  decide +kernel

end Double
