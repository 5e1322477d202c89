-- SUMMARY: Signed machine arithmetic that wraps and records whether any operation overflowed.
import Mathlib.Data.BitVec
import Mathlib.Tactic.Linarith
import Mathlib.Tactic.Positivity
import Mathlib.Tactic.Ring

/-!
# Signed words

A word is read as a signed number by `BitVec.toInt`. Each operation yields the
wrapped word and says whether the exact result left the range of the type; a
computation collects these in sequence. Where nothing overflows, the signed
reading of the result is the exact result.
-/

/-- A value, and whether a signed operation on the way to it overflowed. -/
structure Checked (α : Type) where
  value : α
  overflowed : Bool
  deriving DecidableEq

namespace Checked

variable {α β : Type} {w : ℕ}

instance : Monad Checked where
  pure a := ⟨a, false⟩
  bind x f := ⟨(f x.value).value, x.overflowed || (f x.value).overflowed⟩

@[simp] theorem value_pure (a : α) : (pure a : Checked α).value = a := rfl

@[simp] theorem overflowed_pure (a : α) : (pure a : Checked α).overflowed = false := rfl

@[simp] theorem value_bind (x : Checked α) (f : α → Checked β) :
    (x >>= f).value = (f x.value).value := rfl

@[simp] theorem overflowed_bind (x : Checked α) (f : α → Checked β) :
    (x >>= f).overflowed = (x.overflowed || (f x.value).overflowed) := rfl

/-! ## The operations -/

def sadd (x y : BitVec w) : Checked (BitVec w) := ⟨x + y, x.saddOverflow y⟩

def ssub (x y : BitVec w) : Checked (BitVec w) := ⟨x - y, x.ssubOverflow y⟩

/-- Division that rounds toward zero. -/
def sdiv (x y : BitVec w) : Checked (BitVec w) := ⟨x.sdiv y, x.sdivOverflow y⟩

/-- `n` is in the range of a signed type of `w` bits. -/
def Fits (w : ℕ) (n : ℤ) : Prop := -2 ^ (w - 1) ≤ n ∧ n < 2 ^ (w - 1)

instance (w : ℕ) (n : ℤ) : Decidable (Fits w n) := inferInstanceAs (Decidable (_ ∧ _))

theorem fits_toInt (x : BitVec w) : Fits w x.toInt := ⟨BitVec.le_toInt x, BitVec.toInt_lt⟩

@[simp] theorem sadd_overflowed {x y : BitVec w} :
    (sadd x y).overflowed = false ↔ Fits w (x.toInt + y.toInt) := by
  simp [sadd, BitVec.saddOverflow, Fits, and_comm]

@[simp] theorem ssub_overflowed {x y : BitVec w} :
    (ssub x y).overflowed = false ↔ Fits w (x.toInt - y.toInt) := by
  simp [ssub, BitVec.ssubOverflow, Fits, and_comm]

/-- Dividing by a positive number stays in range. -/
theorem sdiv_overflowed_of_pos {x y : BitVec w} (hy : 0 < y.toInt) :
    (sdiv x y).overflowed = false := by
  obtain ⟨hlo, hhi⟩ := fits_toInt x
  have hp : (0 : ℤ) < 2 ^ (w - 1) := by positivity
  have hle : x.toInt / y.toInt < 2 ^ (w - 1) := by
    apply Int.ediv_lt_of_lt_mul hy
    nlinarith
  have hge : -2 ^ (w - 1) ≤ x.toInt / y.toInt := by
    apply Int.le_ediv_of_mul_le hy
    nlinarith
  simp [sdiv, BitVec.sdivOverflow, hle, hge]

/-! ## Exact computations -/

/-- The computation overflows nowhere, and the signed reading of its value is `n`. -/
structure Exact (x : Checked (BitVec w)) (n : ℤ) : Prop where
  overflowed : x.overflowed = false
  toInt : x.value.toInt = n

theorem Exact.pure {v : BitVec w} {n : ℤ} (h : v.toInt = n) : Exact (Pure.pure v) n := ⟨rfl, h⟩

theorem Exact.bind {v : ℕ} {x : Checked (BitVec w)} {f : BitVec w → Checked (BitVec v)} {n m : ℤ}
    (hx : Exact x n) (hf : ∀ u, u.toInt = n → Exact (f u) m) : Exact (x >>= f) m := by
  have h := hf x.value hx.toInt
  exact ⟨by simp [hx.overflowed, h.overflowed], h.toInt⟩

/-- A computation that continues after `x` overflows nowhere only if `x` does. -/
theorem overflowed_of_bind {x : Checked α} {f : α → Checked β}
    (h : (x >>= f).overflowed = false) : x.overflowed = false := by
  rw [overflowed_bind, Bool.or_eq_false_iff] at h
  exact h.1

theorem exact_sadd {x y : BitVec w} {n m : ℤ} (hx : x.toInt = n) (hy : y.toInt = m)
    (h : Fits w (n + m)) : Exact (sadd x y) (n + m) := by
  subst hx hy
  have hok := sadd_overflowed.mpr h
  exact ⟨hok, BitVec.toInt_add_of_not_saddOverflow (by simpa [sadd] using hok)⟩

theorem exact_ssub {x y : BitVec w} {n m : ℤ} (hx : x.toInt = n) (hy : y.toInt = m)
    (h : Fits w (n - m)) : Exact (ssub x y) (n - m) := by
  subst hx hy
  have hok := ssub_overflowed.mpr h
  exact ⟨hok, BitVec.toInt_sub_of_not_ssubOverflow (by simpa [ssub] using hok)⟩

theorem exact_sdiv {x y : BitVec w} {n m : ℤ} (hx : x.toInt = n) (hy : y.toInt = m)
    (h : 0 < m) : Exact (sdiv x y) (n.tdiv m) := by
  subst hx hy
  refine ⟨sdiv_overflowed_of_pos h, BitVec.toInt_sdiv_of_ne_or_ne x y (.inr fun hneg => ?_)⟩
  rw [hneg, BitVec.neg_one_eq_allOnes, BitVec.toInt_allOnes] at h
  split at h <;> omega

/-- A conversion to a narrower type keeps a number that fits there. -/
theorem toInt_setWidth_of_fits {v : ℕ} {x : BitVec w} (hv0 : 0 < v) (hv : v ≤ w)
    (h : Fits v x.toInt) : (x.setWidth v).toInt = x.toInt := by
  have hdvd : 2 ^ v ∣ 2 ^ w := Nat.pow_dvd_pow 2 hv
  have htwo : (2 : ℤ) ^ v = 2 * 2 ^ (v - 1) := by
    rw [← pow_succ', Nat.sub_add_cancel hv0]
  calc (x.setWidth v).toInt
      = (x.toNat : ℤ).bmod (2 ^ v) := BitVec.toInt_setWidth x
    _ = ((x.toNat : ℤ).bmod (2 ^ w)).bmod (2 ^ v) := (Int.bmod_bmod_of_dvd hdvd).symm
    _ = x.toInt.bmod (2 ^ v) := by rw [← BitVec.toInt_eq_toNat_bmod]
    _ = x.toInt := by
      obtain ⟨hlo, hhi⟩ := h
      apply Int.bmod_eq_of_le <;> push_cast <;> omega

end Checked
