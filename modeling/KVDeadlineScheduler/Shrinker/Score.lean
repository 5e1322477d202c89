-- SUMMARY: Kernel KV intents, their eviction score, and exactly when its integer arithmetic is exact.
import KVDeadlineScheduler.Library.SignedWord
import Mathlib.Tactic.NormNum

/-!
# The eviction score of the kernel shrinker

An intent is scored by a weight of its priority plus an urgency that rises as
the time to its deadline falls. Deadlines and times are `u64`, the score is an
`int`, and the arithmetic in between is `s64`, so each operation is checked.
-/

namespace KvIntentShrinker

/-- `enum kv_priority_level`. -/
inductive KvPriorityLevel where
  | cold
  | warm
  | hot
  | decodeCritical
  deriving DecidableEq, Repr

/-- The number of a priority level. -/
def KvPriorityLevel.toInt : KvPriorityLevel → ℤ
  | .cold => 0
  | .warm => 1
  | .hot => 2
  | .decodeCritical => 3

structure KvBlockIntent where
  objectIdHash : BitVec 64
  deadlineUs : BitVec 64
  registeredKtimeUs : BitVec 64
  priority : KvPriorityLevel
  pinRequested : Bool
  recomputeOk : Bool
  sizeBytes : BitVec 32
  deriving DecidableEq

/-! ## The clock and registration -/

/-- A reading of the monotonic clock: a non-negative `s64` of nanoseconds. -/
structure Ktime where
  ns : ℕ
  inRange : ns < 2 ^ 63

/-- `ktime_to_us` of a reading, as `u64`. -/
def kvNowUs (t : Ktime) : BitVec 64 := BitVec.ofNat 64 (t.ns / 1000)

theorem toNat_kvNowUs (t : Ktime) : (kvNowUs t).toNat = t.ns / 1000 := by
  have := t.inRange
  simp only [kvNowUs, BitVec.toNat_ofNat]
  omega

theorem toInt_kvNowUs (t : Ktime) : (kvNowUs t).toInt = (t.ns / 1000 : ℕ) := by
  have := t.inRange
  rw [BitVec.toInt_eq_toNat_of_lt, toNat_kvNowUs]
  rw [toNat_kvNowUs]
  omega

/-- The intent `kv_register_write` builds from its four fields at the clock reading `t`. -/
def KvBlockIntent.register (objectIdHash deadlineUs : BitVec 64) (priority : KvPriorityLevel)
    (sizeBytes : BitVec 32) (t : Ktime) : KvBlockIntent where
  objectIdHash := objectIdHash
  deadlineUs := deadlineUs
  registeredKtimeUs := kvNowUs t
  priority := priority
  pinRequested := decide (priority = .decodeCritical)
  recomputeOk := false
  sizeBytes := sizeBytes

/-! ## The score -/

def intMax : ℤ := 2 ^ 31 - 1

def kvPriorityWeight : KvPriorityLevel → BitVec 32
  | .cold => 1000
  | .warm => 500
  | .hot => 125
  | .decodeCritical => 0

/-- `raw_score`: the time left, a tenth of it taken from 1000. -/
def kvRawScore (intent : KvBlockIntent) (nowUs : BitVec 64) : Checked (BitVec 64) := do
  let elapsedUs ← Checked.ssub nowUs intent.registeredKtimeUs
  let remainingUs ← Checked.ssub intent.deadlineUs elapsedUs
  let tenth ← Checked.sdiv remainingUs 10
  Checked.ssub 1000 tenth

/-- The clamp of `raw_score` and its conversion to `int`. -/
def kvClampScore (rawScore : BitVec 64) : BitVec 32 :=
  if rawScore.toInt < 0 then 0
  else if intMax < rawScore.toInt then BitVec.ofInt 32 intMax
  else rawScore.setWidth 32

def kvDeadlineUrgencyScore (intent : KvBlockIntent) (nowUs : BitVec 64) : Checked (BitVec 32) := do
  let rawScore ← kvRawScore intent nowUs
  return kvClampScore rawScore

def kvEvictionScore (intent : KvBlockIntent) (nowUs : BitVec 64) : Checked (BitVec 32) := do
  let urgency ← kvDeadlineUrgencyScore intent nowUs
  Checked.sadd (kvPriorityWeight intent.priority) urgency

/-! ## The score over the integers -/

/-- The time an intent has left, over the integers: its deadline runs from its registration. -/
def KvBlockIntent.remainingUs (intent : KvBlockIntent) (nowUs : BitVec 64) : ℤ :=
  intent.deadlineUs.toNat - (nowUs.toNat - intent.registeredKtimeUs.toNat)

/-- `1000 - remaining / 10`, with the division rounding toward zero. -/
def rawUrgency (remainingUs : ℤ) : ℤ := 1000 - remainingUs.tdiv 10

def clampedUrgency (remainingUs : ℤ) : ℤ := min (max (rawUrgency remainingUs) 0) intMax

/-- The computation of the score overflows nowhere, and its value is the number it stands for. -/
def ScoreExact (intent : KvBlockIntent) (nowUs : BitVec 64) : Prop :=
  (kvEvictionScore intent nowUs).overflowed = false ∧
  (kvEvictionScore intent nowUs).value.toInt =
    (kvPriorityWeight intent.priority).toInt + clampedUrgency (intent.remainingUs nowUs) ∧
  0 ≤ (kvEvictionScore intent nowUs).value.toInt

/-- What the truncated division is, for numbers on either side of zero. -/
theorem rawUrgency_bounds (n : ℤ) :
    (0 ≤ n → rawUrgency n ≤ 1000 ∧ 10 * (1000 - rawUrgency n) ≤ n ∧ n < 10 * (1001 - rawUrgency n)) ∧
    (n < 0 → 1000 ≤ rawUrgency n ∧ n ≤ 10 * (1000 - rawUrgency n) ∧
      10 * (999 - rawUrgency n) < n) := by
  have hdiv := Int.tmod_add_tdiv_mul n 10
  constructor
  · intro hn
    have hnonneg : 0 ≤ n.tmod 10 := Int.tmod_nonneg 10 hn
    have hlt : n.tmod 10 < 10 := Int.tmod_lt_of_pos n (by decide)
    have hq : 0 ≤ n.tdiv 10 := Int.tdiv_nonneg hn (by decide)
    simp only [rawUrgency]
    omega
  · intro hn
    have hneg : 0 ≤ (-n).tmod 10 := Int.tmod_nonneg 10 (by omega)
    have hlt : (-n).tmod 10 < 10 := Int.tmod_lt_of_pos (-n) (by decide)
    have hq : 0 ≤ (-n).tdiv 10 := Int.tdiv_nonneg (by omega) (by decide)
    rw [Int.neg_tmod] at hneg hlt
    rw [Int.neg_tdiv] at hq
    simp only [rawUrgency]
    omega

theorem rawUrgency_antitone {m n : ℤ} (h : m ≤ n) : rawUrgency n ≤ rawUrgency m := by
  have hm := rawUrgency_bounds m
  have hn := rawUrgency_bounds n
  omega

theorem toInt_kvClampScore (rawScore : BitVec 64) :
    (kvClampScore rawScore).toInt = min (max rawScore.toInt 0) intMax := by
  unfold kvClampScore
  split
  next hneg =>
    have : min (max rawScore.toInt 0) intMax = 0 := by unfold intMax; omega
    rw [this]
    rfl
  next hneg =>
    split
    next hbig =>
      have : min (max rawScore.toInt 0) intMax = intMax := by omega
      rw [this]
      rfl
    next hbig =>
      rw [Checked.toInt_setWidth_of_fits (by decide) (by decide)]
      · omega
      · unfold intMax at hbig
        exact ⟨by norm_num; omega, by norm_num; omega⟩

section Urgency

variable {intent : KvBlockIntent} {nowUs : BitVec 64}

/-- The time left as the code computes it, over the integers: the casts to `s64` are made. -/
def KvBlockIntent.signedRemaining (intent : KvBlockIntent) (nowUs : BitVec 64) : ℤ :=
  intent.deadlineUs.toInt - (nowUs.toInt - intent.registeredKtimeUs.toInt)

/-- The urgency is exact as soon as the time left is in range. -/
theorem kvDeadlineUrgencyScore_exact
    (helapsed : Checked.Fits 64 (nowUs.toInt - intent.registeredKtimeUs.toInt))
    (hremaining : Checked.Fits 64 (intent.signedRemaining nowUs)) :
    (kvDeadlineUrgencyScore intent nowUs).Exact (clampedUrgency (intent.signedRemaining nowUs)) := by
  have hraw : Checked.Fits 64 (rawUrgency (intent.signedRemaining nowUs)) := by
    have := rawUrgency_bounds (intent.signedRemaining nowUs)
    simp only [Checked.Fits] at hremaining ⊢
    omega
  refine .bind (n := rawUrgency (intent.signedRemaining nowUs)) ?_ fun u hu => ?_
  · refine .bind (Checked.exact_ssub rfl rfl helapsed) fun elapsed he => ?_
    refine .bind (Checked.exact_ssub rfl he hremaining) fun remaining hr => ?_
    refine .bind (Checked.exact_sdiv hr (by decide : (10 : BitVec 64).toInt = 10) (by decide))
      fun tenth ht => ?_
    exact Checked.exact_ssub (by decide) ht hraw
  · refine .pure ?_
    rw [toInt_kvClampScore, hu]
    rfl

theorem kvEvictionScore_exact
    (helapsed : Checked.Fits 64 (nowUs.toInt - intent.registeredKtimeUs.toInt))
    (hremaining : Checked.Fits 64 (intent.signedRemaining nowUs))
    (hsum : Checked.Fits 32 ((kvPriorityWeight intent.priority).toInt +
      clampedUrgency (intent.signedRemaining nowUs))) :
    (kvEvictionScore intent nowUs).Exact
      ((kvPriorityWeight intent.priority).toInt + clampedUrgency (intent.signedRemaining nowUs)) :=
  .bind (kvDeadlineUrgencyScore_exact helapsed hremaining) fun _ hu => Checked.exact_sadd rfl hu hsum

/-- Conversely a score that overflows nowhere had a time left, and a sum, in range. -/
theorem kvEvictionScore_fits
    (helapsed : Checked.Fits 64 (nowUs.toInt - intent.registeredKtimeUs.toInt))
    (h : (kvEvictionScore intent nowUs).overflowed = false) :
    Checked.Fits 64 (intent.signedRemaining nowUs) ∧
    Checked.Fits 32 ((kvPriorityWeight intent.priority).toInt +
      clampedUrgency (intent.signedRemaining nowUs)) := by
  have hurgency := Checked.overflowed_of_bind h
  have hraw := Checked.overflowed_of_bind hurgency
  have hremaining : Checked.Fits 64 (intent.signedRemaining nowUs) := by
    simp only [kvRawScore, Checked.overflowed_bind, Bool.or_eq_false_iff, Checked.ssub_overflowed,
      (Checked.exact_ssub rfl rfl helapsed).toInt] at hraw
    exact hraw.2.1
  refine ⟨hremaining, ?_⟩
  simp only [kvEvictionScore, Checked.overflowed_bind, Bool.or_eq_false_iff,
    Checked.sadd_overflowed, (kvDeadlineUrgencyScore_exact helapsed hremaining).toInt] at h
  exact h.2

end Urgency

/-! ## When the arithmetic is exact -/

theorem kvPriorityWeight_bounds (p : KvPriorityLevel) :
    0 ≤ (kvPriorityWeight p).toInt ∧ (kvPriorityWeight p).toInt ≤ 1000 ∧
    ((kvPriorityWeight p).toInt = 0 ↔ p = .decodeCritical) := by
  cases p <;> decide

theorem fits_iff_64 {n : ℤ} : Checked.Fits 64 n ↔ -2 ^ 63 ≤ n ∧ n < 2 ^ 63 := Iff.rfl

/-- Two readings of the clock differ by less than an `s64` holds, with room to spare. -/
theorem elapsed_bounds {t t' : Ktime} (hle : t.ns ≤ t'.ns) :
    0 ≤ (kvNowUs t').toInt - (kvNowUs t).toInt ∧
    (kvNowUs t').toInt - (kvNowUs t).toInt < 2 ^ 54 := by
  have := t'.inRange
  rw [toInt_kvNowUs, toInt_kvNowUs]
  push_cast
  omega

/-! ## The score where it wraps -/

/-- What the score adds to the weight, over the integers: the time left wraps as an `s64`, and a sum that
is too large for an `int` comes out `2 ^ 32` below. -/
def KvBlockIntent.wrappedUrgency (intent : KvBlockIntent) (nowUs : BitVec 64) : ℤ :=
  let urgency := clampedUrgency ((intent.signedRemaining nowUs).bmod (2 ^ 64))
  if (kvPriorityWeight intent.priority).toInt + urgency ≤ intMax then urgency else urgency - 2 ^ 32

theorem toInt_kvRawScore (intent : KvBlockIntent) (nowUs : BitVec 64) :
    (kvRawScore intent nowUs).value.toInt = rawUrgency ((intent.signedRemaining nowUs).bmod (2 ^ 64)) := by
  have hremaining : (intent.deadlineUs - (nowUs - intent.registeredKtimeUs)).toInt =
      (intent.signedRemaining nowUs).bmod (2 ^ 64) := by
    rw [BitVec.toInt_sub, BitVec.toInt_sub, Int.sub_bmod_bmod]
    rfl
  have hraw : Checked.Fits 64 (rawUrgency ((intent.signedRemaining nowUs).bmod (2 ^ 64))) := by
    have hfits := Checked.fits_toInt (intent.deadlineUs - (nowUs - intent.registeredKtimeUs))
    have hbounds := rawUrgency_bounds ((intent.signedRemaining nowUs).bmod (2 ^ 64))
    rw [hremaining, fits_iff_64] at hfits
    rw [fits_iff_64]
    omega
  -- from the time left on, nothing overflows
  have htenth := Checked.exact_sdiv hremaining (by decide : (10 : BitVec 64).toInt = 10) (by decide)
  exact (htenth.bind fun tenth ht => Checked.exact_ssub (by decide) ht hraw).toInt

/-- The score of an intent, whatever overflows. -/
theorem toInt_kvEvictionScore (intent : KvBlockIntent) (nowUs : BitVec 64) :
    (kvEvictionScore intent nowUs).value.toInt =
      (kvPriorityWeight intent.priority).toInt + intent.wrappedUrgency nowUs := by
  have hurgency : (kvDeadlineUrgencyScore intent nowUs).value.toInt =
      clampedUrgency ((intent.signedRemaining nowUs).bmod (2 ^ 64)) := by
    rw [kvDeadlineUrgencyScore, Checked.value_bind, Checked.value_pure, toInt_kvClampScore, toInt_kvRawScore]
    rfl
  have hsum : (kvEvictionScore intent nowUs).value.toInt =
      ((kvPriorityWeight intent.priority).toInt +
        clampedUrgency ((intent.signedRemaining nowUs).bmod (2 ^ 64))).bmod (2 ^ 32) := by
    rw [← hurgency, ← BitVec.toInt_add]
    rfl
  have hweight := kvPriorityWeight_bounds intent.priority
  have hclamp : 0 ≤ clampedUrgency ((intent.signedRemaining nowUs).bmod (2 ^ 64)) ∧
      clampedUrgency ((intent.signedRemaining nowUs).bmod (2 ^ 64)) ≤ intMax := by
    simp only [clampedUrgency, intMax]
    omega
  rw [hsum, KvBlockIntent.wrappedUrgency]
  generalize clampedUrgency ((intent.signedRemaining nowUs).bmod (2 ^ 64)) = urgency at hclamp ⊢
  generalize (kvPriorityWeight intent.priority).toInt = weight at hweight ⊢
  rw [intMax] at hclamp ⊢
  have hmod : (weight + urgency) % (2 ^ 32) = weight + urgency := Int.emod_eq_of_lt (by omega) (by omega)
  have hsize : ((2 ^ 32 : ℕ) : ℤ) = 2 ^ 32 := rfl
  rw [Int.bmod_def, hsize, hmod]
  by_cases hfits : weight + urgency ≤ 2 ^ 31 - 1
  · rw [if_pos hfits, if_pos (by omega)]
  · rw [if_neg hfits, if_neg (by omega)]
    ring

section Exactness

variable {intent : KvBlockIntent} {registered now : Ktime}

/-- A deadline below 2^63 is not changed by its cast, and the time left is in range. -/
theorem signedRemaining_of_small (hreg : intent.registeredKtimeUs = kvNowUs registered)
    (hle : registered.ns ≤ now.ns) (hsmall : intent.deadlineUs.toNat < 2 ^ 63) :
    intent.signedRemaining (kvNowUs now) = intent.remainingUs (kvNowUs now) ∧
    Checked.Fits 64 (intent.signedRemaining (kvNowUs now)) := by
  have helapsed := elapsed_bounds hle
  have hdeadline : intent.deadlineUs.toInt = intent.deadlineUs.toNat :=
    BitVec.toInt_eq_toNat_of_lt (by omega)
  have heq : intent.signedRemaining (kvNowUs now) = intent.remainingUs (kvNowUs now) := by
    simp only [KvBlockIntent.signedRemaining, KvBlockIntent.remainingUs, hreg, hdeadline,
      toInt_kvNowUs, toNat_kvNowUs]
  refine ⟨heq, fits_iff_64.mpr ?_⟩
  simp only [KvBlockIntent.signedRemaining, hreg, hdeadline]
  omega

/-- A deadline from 2^63 on is negative once cast, while much time is left. -/
theorem signedRemaining_of_large (hreg : intent.registeredKtimeUs = kvNowUs registered)
    (hle : registered.ns ≤ now.ns) (hlarge : 2 ^ 63 ≤ intent.deadlineUs.toNat) :
    intent.signedRemaining (kvNowUs now) < 0 ∧ 2 ^ 62 ≤ intent.remainingUs (kvNowUs now) := by
  have helapsed := elapsed_bounds hle
  have hlt : intent.deadlineUs.toNat < 2 ^ 64 := intent.deadlineUs.isLt
  have hdeadline : intent.deadlineUs.toInt = intent.deadlineUs.toNat - 2 ^ 64 := by
    rw [BitVec.toInt_eq_toNat_cond, if_neg (by omega)]
    norm_num
  simp only [KvBlockIntent.signedRemaining, KvBlockIntent.remainingUs, hreg, hdeadline,
    toInt_kvNowUs, toNat_kvNowUs] at helapsed ⊢
  omega

/-- The weight and the clamped urgency of an intent sum to an `int`. -/
theorem sum_fits_iff (p : KvPriorityLevel) (remaining : ℤ) :
    Checked.Fits 32 ((kvPriorityWeight p).toInt + clampedUrgency remaining) ↔
      p = .decodeCritical ∨ (kvPriorityWeight p).toInt + rawUrgency remaining ≤ intMax := by
  obtain ⟨hlo, hhi, hzero⟩ := kvPriorityWeight_bounds p
  rw [← hzero]
  simp only [Checked.Fits, clampedUrgency, intMax]
  omega

/-- The score is exact for the deadlines that are not negative as `s64`, unless the intent is so long
overdue that its urgency leaves no room for its weight. Only `DECODE_CRITICAL` weighs nothing. -/
theorem scoreExact_iff (objectIdHash deadlineUs : BitVec 64) (priority : KvPriorityLevel)
    (sizeBytes : BitVec 32) (hle : registered.ns ≤ now.ns) :
    ScoreExact (.register objectIdHash deadlineUs priority sizeBytes registered) (kvNowUs now) ↔
      deadlineUs.toNat < 2 ^ 63 ∧
      (priority = .decodeCritical ∨
        (kvPriorityWeight priority).toInt +
          rawUrgency (deadlineUs.toNat - (now.ns / 1000 - registered.ns / 1000 : ℕ)) ≤ intMax) := by
  obtain ⟨intent, hintent⟩ : ∃ intent : KvBlockIntent,
    intent = .register objectIdHash deadlineUs priority sizeBytes registered := ⟨_, rfl⟩
  have hreg : intent.registeredKtimeUs = kvNowUs registered := by rw [hintent]; rfl
  have hdeadline : deadlineUs = intent.deadlineUs := by rw [hintent]; rfl
  have hpriority : priority = intent.priority := by rw [hintent]; rfl
  have hremaining : (deadlineUs.toNat - (now.ns / 1000 - registered.ns / 1000 : ℕ) : ℤ) =
      intent.remainingUs (kvNowUs now) := by
    simp only [KvBlockIntent.remainingUs, hreg, toNat_kvNowUs, hdeadline]
    omega
  have helapsed : Checked.Fits 64 ((kvNowUs now).toInt - intent.registeredKtimeUs.toInt) := by
    have := elapsed_bounds hle
    rw [hreg, fits_iff_64]
    omega
  rw [hremaining, ← hintent, hdeadline, hpriority]
  constructor
  · rintro ⟨hok, hvalue, -⟩
    obtain ⟨hfits, hsum⟩ := kvEvictionScore_fits helapsed hok
    rw [(kvEvictionScore_exact helapsed hfits hsum).toInt] at hvalue
    rcases Nat.lt_or_ge intent.deadlineUs.toNat (2 ^ 63) with hsmall | hlarge
    · rw [(signedRemaining_of_small hreg hle hsmall).1, sum_fits_iff] at hsum
      exact ⟨hsmall, hsum⟩
    · -- The negative time left makes the intent urgent, while by its deadline it is not.
      obtain ⟨hneg, hfar⟩ := signedRemaining_of_large hreg hle hlarge
      have hurgent := (rawUrgency_bounds (intent.signedRemaining (kvNowUs now))).2 hneg
      have hcalm := (rawUrgency_bounds (intent.remainingUs (kvNowUs now))).1 (by omega)
      simp only [clampedUrgency, intMax] at hvalue
      omega
  · rintro ⟨hsmall, hroom⟩
    obtain ⟨heq, hfits⟩ := signedRemaining_of_small hreg hle hsmall
    rw [← sum_fits_iff, ← heq] at hroom
    obtain ⟨hok, hvalue⟩ := kvEvictionScore_exact helapsed hfits hroom
    refine ⟨hok, by rw [hvalue, heq], ?_⟩
    have hweight := kvPriorityWeight_bounds intent.priority
    rw [hvalue]
    simp only [clampedUrgency, intMax]
    omega

/-- A second after it was registered, a cold intent without any deadline pressure scores exactly. -/
theorem scoreExact_iff_fresh :
    ScoreExact (.register 7 5000 .cold 4096 ⟨0, by decide⟩) (kvNowUs ⟨10 ^ 9, by decide⟩) :=
  (scoreExact_iff 7 5000 .cold 4096 (by decide)).mpr ⟨by decide, .inr (by decide)⟩

/-- A cold intent six hours overdue wraps to a negative score, and the largest deadline, a deadline
that never comes, is scored as one that has passed. -/
theorem score_not_exact :
    (kvEvictionScore (.register 7 1000 .cold 4096 ⟨0, by decide⟩)
      (kvNowUs ⟨21600 * 10 ^ 9, by decide⟩)).value.toInt < 0 ∧
    ¬ ScoreExact (.register 7 1000 .cold 4096 ⟨0, by decide⟩)
      (kvNowUs ⟨21600 * 10 ^ 9, by decide⟩) ∧
    ¬ ScoreExact (.register 7 0xFFFFFFFFFFFFFFFF .cold 4096 ⟨0, by decide⟩) (kvNowUs ⟨0, by decide⟩) :=
  ⟨by decide, fun h => absurd h.1 (by decide), fun h => absurd h.2.1 (by decide)⟩

end Exactness

end KvIntentShrinker
