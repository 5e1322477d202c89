-- SUMMARY: How a request's priority moves the eviction score of an allocated block, directly and through the slack it is given.
import Mathlib.Tactic.LinearCombination
import KVDeadlineScheduler.Adapter.Hooks
import KVDeadlineScheduler.Policies

/-!
# The priority bonus

The adapter adds ten microseconds of slack for every ten points of priority, and
the policy protects a block less the more slack it has. The other terms of the
score make up for this unless the bonus carries the slack over one of the two
steps of the protection.
-/

namespace KVMemoryIntent

namespace DeadlineAwarePolicy

/-- What the slack of a block takes from its score. -/
def slackProtection (slackUs : ℤ) : ℚ := if slackUs ≤ 500 then 260 else if slackUs ≤ 2000 then 120 else 0

/-- What the slack of a block adds to its risk. -/
def slackRisk (slackUs : ℤ) : ℚ := max 0 (5000 - (slackUs : ℚ)) / 10

variable (m : MemoryIntent) (slackUs : Option ℤ) (requestPriority currentStep : ℤ)

/-- The record without its slack and priority. -/
def bare (m : MemoryIntent) : MemoryIntent := { m with slackUs := none, requestPriority := 0 }

theorem evictionRiskScore_eq_bare :
    { m with slackUs := slackUs, requestPriority := requestPriority }.evictionRiskScore currentStep =
      (bare m).evictionRiskScore currentStep + slackUs.elim 0 slackRisk + requestPriority * 2 := by
  have hrisk : (fun s : ℤ => max 0 (5000 - (s : ℚ)) / 10) = slackRisk := rfl
  unfold MemoryIntent.evictionRiskScore MemoryIntent.effectiveDeadlineScore bare
  rw [hrisk]
  dsimp only [Option.elim_none]
  rw [Int.cast_zero]
  ring

/-- The score as a function of slack, priority and risk. -/
theorem evictionScore_eq_bare :
    evictionScore { m with slackUs := slackUs, requestPriority := requestPriority } currentStep =
      evictionScore (bare m) currentStep
      + max ((bare m).evictionRiskScore currentStep) 0 / 40
      + (bare m).evictionRiskScore currentStep / 18
      - requestPriority
      - slackUs.elim 0 slackProtection
      - (if 80 ≤ requestPriority then 90 else 0)
      - max ({ m with slackUs := slackUs, requestPriority := requestPriority }.evictionRiskScore
          currentStep) 0 / 40
      - { m with slackUs := slackUs, requestPriority := requestPriority }.evictionRiskScore
          currentStep / 18 := by
  have hprotection :
      (fun s : ℤ => if s ≤ 500 then (260 : ℚ) else if s ≤ 2000 then 120 else 0) = slackProtection := rfl
  have hzero : ¬ (80 : ℤ) ≤ 0 := by decide
  generalize hrisk : { m with slackUs := slackUs, requestPriority := requestPriority }.evictionRiskScore
    currentStep = risk
  generalize hbare : (bare m).evictionRiskScore currentStep = bareRisk
  unfold evictionScore IntentAwarePolicy.evictionScore
  rw [hrisk, hbare, hprotection]
  unfold bare
  dsimp only [Option.elim_none]
  rw [if_neg hzero]
  push_cast
  ring

end DeadlineAwarePolicy

open DeadlineAwarePolicy

/-! ## Two priorities -/

/-- What raising the priority from `p` to `q` takes from the score, apart from the slack protection:
the priority itself, the interactive threshold and the risk. -/
def priorityGain (p q : ℤ) : ℚ :=
  (q - p) + (if p < 80 ∧ 80 ≤ q then 90 else 0) +
    (2 * (q - p) - ((q / 10 - p / 10 : ℤ) : ℚ)) * (1 / 40 + 1 / 18)

/-- Where the bonus carries the slack that a deadline gives over 500 or 2000, the gain is at least the
protection lost there. -/
def BonusCovered (p q : ℤ) : Option ℤ → Prop
  | none => True
  | some deadlineUs =>
    let base := max 50 (deadlineUs / 5)
    let slackP := base + p / 10 * 10
    let slackQ := base + q / 10 * 10
    (slackP ≤ 500 ∧ 500 < slackQ → 140 ≤ priorityGain p q) ∧
    (slackP ≤ 2000 ∧ 2000 < slackQ → 120 ≤ priorityGain p q)

section Bands

variable {s t p q : ℤ}

theorem slackRisk_eq {s : ℤ} (h : s ≤ 5000) : slackRisk s = (5000 - s) / 10 := by
  have hcast : (s : ℚ) ≤ 5000 := by exact_mod_cast h
  rw [slackRisk, max_eq_right (by linarith)]

/-- More slack lowers the risk by at most a tenth of it. -/
theorem slackRisk_sub_le (h : s ≤ t) : slackRisk s - slackRisk t ≤ ((t - s : ℤ) : ℚ) / 10 := by
  have hcast : (s : ℚ) ≤ t := by exact_mod_cast h
  simp only [slackRisk]
  push_cast
  rcases le_total (5000 - (s : ℚ)) 0 with hs | hs
  · rw [max_eq_left hs, max_eq_left (by linarith)]
    linarith
  · rw [max_eq_right hs]
    have := le_max_right 0 (5000 - (t : ℚ))
    linarith

/-- The score at priority `p` with slack `s` less the score at priority `q` with slack `t`, for blocks
that are otherwise alike and whose other fields give them the risk `risk`. -/
def scoreDrop (risk : ℚ) (s t p q : ℤ) : ℚ :=
  (q - p) + (slackProtection t - slackProtection s)
  + ((if 80 ≤ q then 90 else 0) - if 80 ≤ p then 90 else 0)
  + (max (risk + slackRisk t + q * 2) 0 - max (risk + slackRisk s + p * 2) 0) / 40
  + ((risk + slackRisk t + q * 2) - (risk + slackRisk s + p * 2)) / 18

theorem interactive_gain (hpq : p ≤ q) :
    ((if 80 ≤ q then (90 : ℚ) else 0) - if 80 ≤ p then 90 else 0) =
      if p < 80 ∧ 80 ≤ q then 90 else 0 := by
  split_ifs <;> first | omega | norm_num

/-- In one band the risk decides, and it does not fall. -/
theorem scoreDrop_nonneg_of_band (hpq : p ≤ q) (hst : t - s = (q / 10 - p / 10) * 10)
    (hband : slackProtection s = slackProtection t) (risk : ℚ) : 0 ≤ scoreDrop risk s t p q := by
  have hsub := slackRisk_sub_le (s := s) (t := t) (by omega)
  have hslack : ((t - s : ℤ) : ℚ) ≤ (2 * (q - p) : ℤ) * 10 := by
    have : t - s ≤ 2 * (q - p) * 10 := by omega
    exact_mod_cast this
  have hcast : (p : ℚ) ≤ q := by exact_mod_cast hpq
  have hrisk : risk + slackRisk s + p * 2 ≤ risk + slackRisk t + q * 2 := by
    push_cast at hslack hsub
    linarith
  have hmax := max_le_max_right (0 : ℚ) hrisk
  have hinteractive : (0 : ℚ) ≤ if p < 80 ∧ 80 ≤ q then 90 else 0 := by split <;> norm_num
  rw [scoreDrop, interactive_gain hpq, hband]
  linarith

/-- Below 5000 every term is linear as long as the risk is positive. -/
theorem scoreDrop_eq (hpq : p ≤ q) (hp : 0 ≤ p) (hst : t - s = (q / 10 - p / 10) * 10)
    (ht : t ≤ 2100) {risk : ℚ} (hrisk : -165 ≤ risk) :
    scoreDrop risk s t p q = priorityGain p q - (slackProtection s - slackProtection t) := by
  have hpcast : (0 : ℚ) ≤ p := by exact_mod_cast hp
  have hqcast : (0 : ℚ) ≤ q := by exact_mod_cast hp.trans hpq
  have htcast : (t : ℚ) ≤ 2100 := by exact_mod_cast ht
  have hsle : s ≤ t := by omega
  have hscast : (s : ℚ) ≤ t := by exact_mod_cast hsle
  have hstcast : (t : ℚ) - s = ((q / 10 - p / 10 : ℤ) : ℚ) * 10 := by exact_mod_cast hst
  rw [scoreDrop, interactive_gain hpq, slackRisk_eq (by omega), slackRisk_eq (by omega),
    max_eq_left (by linarith), max_eq_left (by linarith), priorityGain]
  linear_combination (-1 / 10 * (1 / 40 + 1 / 18)) * hstcast

theorem scoreDrop_nonneg_iff (hp : 0 ≤ p) (hpq : p ≤ q) (hq : q ≤ 100) (deadlineUs : ℤ)
    {risk : ℚ} (hrisk : -165 ≤ risk) :
    0 ≤ scoreDrop risk (max 50 (deadlineUs / 5) + p / 10 * 10) (max 50 (deadlineUs / 5) + q / 10 * 10) p q ↔
      BonusCovered p q (some deadlineUs) := by
  obtain ⟨s, hs⟩ : ∃ s, s = max 50 (deadlineUs / 5) + p / 10 * 10 := ⟨_, rfl⟩
  obtain ⟨t, ht⟩ : ∃ t, t = max 50 (deadlineUs / 5) + q / 10 * 10 := ⟨_, rfl⟩
  have hst : t - s = (q / 10 - p / 10) * 10 := by omega
  simp only [BonusCovered]
  rw [← hs, ← ht]
  by_cases hlow : s ≤ 500 ∧ 500 < t
  · have hcost : slackProtection s - slackProtection t = 140 := by
      simp only [slackProtection]
      split_ifs <;> first | omega | norm_num
    rw [scoreDrop_eq hpq hp hst (by omega) hrisk, hcost]
    constructor
    · intro h
      exact ⟨fun _ => by linarith, fun _ => by linarith⟩
    · intro h
      have := h.1 hlow
      linarith
  · by_cases hhigh : s ≤ 2000 ∧ 2000 < t
    · have hcost : slackProtection s - slackProtection t = 120 := by
        simp only [slackProtection]
        split_ifs <;> first | omega | norm_num
      rw [scoreDrop_eq hpq hp hst (by omega) hrisk, hcost]
      constructor
      · intro h
        exact ⟨fun hc => absurd hc hlow, fun _ => by linarith⟩
      · intro h
        have := h.2 hhigh
        linarith
    · have hband : slackProtection s = slackProtection t := by
        simp only [slackProtection]
        split_ifs <;> first | omega | rfl
      exact ⟨fun _ => ⟨fun hc => absurd hc hlow, fun hc => absurd hc hhigh⟩,
        fun _ => scoreDrop_nonneg_of_band hpq hst hband risk⟩

end Bands

/-! ## The two intents of an allocation -/

/-- Blocks alike in all but slack and priority. -/
theorem evictionScore_sub (m : MemoryIntent) (s t p q currentStep : ℤ) :
    evictionScore { m with slackUs := some s, requestPriority := p } currentStep -
      evictionScore { m with slackUs := some t, requestPriority := q } currentStep =
    scoreDrop ((bare m).evictionRiskScore currentStep) s t p q := by
  rw [evictionScore_eq_bare m (some s) p, evictionScore_eq_bare m (some t) q,
    evictionRiskScore_eq_bare m (some s) p, evictionRiskScore_eq_bare m (some t) q, scoreDrop]
  dsimp only [Option.elim_some]
  ring

/-- Blocks alike in all but the priority, without any slack. -/
theorem evictionScore_le_of_no_slack (m : MemoryIntent) {p q : ℤ} (hpq : p ≤ q) (currentStep : ℤ) :
    evictionScore { m with slackUs := none, requestPriority := q } currentStep ≤
      evictionScore { m with slackUs := none, requestPriority := p } currentStep := by
  have hcast : (p : ℚ) ≤ q := by exact_mod_cast hpq
  have hrisk : (bare m).evictionRiskScore currentStep + 0 + (p : ℚ) * 2 ≤
      (bare m).evictionRiskScore currentStep + 0 + q * 2 := by linarith
  have hmax := max_le_max_right (0 : ℚ) hrisk
  have hinteractive : (if 80 ≤ p then (90 : ℚ) else 0) ≤ if 80 ≤ q then 90 else 0 := by
    split_ifs <;> first | omega | norm_num
  rw [evictionScore_eq_bare m none p, evictionScore_eq_bare m none q,
    evictionRiskScore_eq_bare m none p, evictionRiskScore_eq_bare m none q]
  dsimp only [Option.elim_none]
  linarith

namespace VLLMIntentAdapter

section Allocation

variable (adapter : VLLMIntentAdapter) (step : ℤ) (requestId : String) (blockId : ℤ) (phase : Phase)
  (deadlineUs sizeBytes : Option ℤ) (isDraft : Bool)

/-- The fields of the block that is allocated with an explicit priority. -/
def allocatedFields (requestPriority : ℤ) : MemoryIntent :=
  adapter.intentFields (adapter.metadataOf requestId) requestId blockId
    (allocationOptions step phase (some requestPriority) deadlineUs sizeBytes isDraft)

/-- The deadline the block gets: the one passed, or that of its request. -/
def resolvedDeadline : Option ℤ := deadlineUs <|> (adapter.metadataOf requestId).deadlineUs

/-- An allocation is never decode-critical, so its event carries the fields as they are. -/
theorem onBlockAllocated_intent {requestPriority : ℤ} {event : MemoryIntentEvent}
    {after : VLLMIntentAdapter}
    (h : (onBlockAllocated step requestId blockId phase (some requestPriority) deadlineUs sizeBytes
      isDraft).run adapter = (.ok event, after)) :
    event.intent = adapter.allocatedFields step requestId blockId phase deadlineUs sizeBytes isDraft
      requestPriority := by
  have hspec : (onBlockAllocated step requestId blockId phase (some requestPriority) deadlineUs
      sizeBytes isDraft).Wp (fun e _ => e.intent = adapter.allocatedFields step requestId blockId phase
        deadlineUs sizeBytes isDraft requestPriority) (fun _ _ => True) adapter := by
    rw [onBlockAllocated, Stateful.wp_bind]
    refine wp_makeIntent (fun v hv => ?_) fun _ => trivial
    have hcritical : (adapter.allocatedFields step requestId blockId phase deadlineUs sizeBytes isDraft
        requestPriority).priority ≠ .decodeCritical := by
      simp only [allocatedFields, intentFields, allocationOptions]
      split_ifs <;> decide
    refine wp_emit (fun _ e _ _ he => ?_) fun _ _ => trivial
    rw [he]
    exact (MemoryIntent.postInit_eq hv fun hc => absurd hc hcritical).1
  exact hspec.of_ok h

/-- Only the priority and the slack of the block depend on the priority passed. -/
theorem allocatedFields_eq (requestPriority : ℤ) :
    adapter.allocatedFields step requestId blockId phase deadlineUs sizeBytes isDraft requestPriority =
      { adapter.allocatedFields step requestId blockId phase deadlineUs sizeBytes isDraft 0 with
        slackUs := (adapter.resolvedDeadline requestId deadlineUs).map fun d =>
          computeSlack d 0 requestPriority
        requestPriority := requestPriority } := rfl

theorem computeSlack_of_nonneg {d p : ℤ} (hp : 0 ≤ p) :
    computeSlack d 0 p = max 50 (d / 5) + p / 10 * 10 := by
  simp only [computeSlack]
  omega

theorem deadlineRisk_nonneg (deadlineUs : Option ℤ) :
    0 ≤ deadlineUs.elim (0 : ℚ) fun d => max 0 (10000 - (d : ℚ)) / 20 := by
  cases deadlineUs with
  | none => exact le_rfl
  | some d => exact div_nonneg (le_max_left _ _) (by norm_num)

/-- What an allocated block is at risk by, its slack and priority apart: an idle or finished draft is
at the least. -/
theorem allocated_risk (currentStep : ℤ) :
    -165 ≤ (bare (adapter.allocatedFields step requestId blockId phase deadlineUs sizeBytes isDraft
      0)).evictionRiskScore currentStep := by
  have hdeadline := deadlineRisk_nonneg (adapter.resolvedDeadline requestId deadlineUs)
  have hfields : (bare (adapter.allocatedFields step requestId blockId phase deadlineUs sizeBytes
      isDraft 0)).deadlineUs = adapter.resolvedDeadline requestId deadlineUs := rfl
  unfold MemoryIntent.evictionRiskScore MemoryIntent.effectiveDeadlineScore
  rw [hfields]
  generalize (adapter.resolvedDeadline requestId deadlineUs).elim (0 : ℚ) _ = deadlineRisk
    at hdeadline ⊢
  dsimp only [bare, allocatedFields, intentFields, allocationOptions, Option.elim_none,
    Option.elim_some]
  cases phase <;> cases isDraft <;>
    simp only [reduceCtorEq, if_true, if_false, Bool.false_eq_true] <;> norm_num <;> linarith

/-- With identical arguments but the priority, the block of the higher priority is never the easier
one to evict exactly when the bonus is covered. -/
theorem higher_priority_protects_iff {p q : ℤ} (hp : 0 ≤ p) (hpq : p ≤ q) (hq : q ≤ 100)
    {eventP eventQ : MemoryIntentEvent} {afterP afterQ : VLLMIntentAdapter}
    (hrunP : (onBlockAllocated step requestId blockId phase (some p) deadlineUs sizeBytes isDraft).run
      adapter = (.ok eventP, afterP))
    (hrunQ : (onBlockAllocated step requestId blockId phase (some q) deadlineUs sizeBytes isDraft).run
      adapter = (.ok eventQ, afterQ)) :
    (∀ currentStep, DeadlineAwarePolicy.evictionScore eventQ.intent currentStep ≤
      DeadlineAwarePolicy.evictionScore eventP.intent currentStep) ↔
    BonusCovered p q (adapter.resolvedDeadline requestId deadlineUs) := by
  rw [onBlockAllocated_intent adapter step requestId blockId phase deadlineUs sizeBytes isDraft hrunP,
    onBlockAllocated_intent adapter step requestId blockId phase deadlineUs sizeBytes isDraft hrunQ,
    allocatedFields_eq adapter step requestId blockId phase deadlineUs sizeBytes isDraft p,
    allocatedFields_eq adapter step requestId blockId phase deadlineUs sizeBytes isDraft q]
  have hrisk := allocated_risk adapter step requestId blockId phase deadlineUs sizeBytes isDraft
  generalize adapter.allocatedFields step requestId blockId phase deadlineUs sizeBytes isDraft 0 = m
    at hrisk ⊢
  cases adapter.resolvedDeadline requestId deadlineUs with
  | none => exact ⟨fun _ => trivial, fun _ currentStep => evictionScore_le_of_no_slack m hpq currentStep⟩
  | some d =>
    simp only [Option.map_some, computeSlack_of_nonneg hp, computeSlack_of_nonneg (hp.trans hpq)]
    constructor
    · intro h
      have hdrop := evictionScore_sub m (max 50 (d / 5) + p / 10 * 10) (max 50 (d / 5) + q / 10 * 10) p q 0
      rw [← scoreDrop_nonneg_iff hp hpq hq d (hrisk 0), ← hdrop]
      linarith [h 0]
    · intro h currentStep
      have hdrop := evictionScore_sub m (max 50 (d / 5) + p / 10 * 10) (max 50 (d / 5) + q / 10 * 10) p q
        currentStep
      rw [← scoreDrop_nonneg_iff hp hpq hq d (hrisk currentStep), ← hdrop] at h
      linarith

end Allocation

/-- A decode block with a deadline of 2475 us, allocated by a fresh adapter. -/
def sampleAllocation (requestPriority : ℤ) : Hook MemoryIntentEvent :=
  onBlockAllocated 0 "req" 0 .decode (some requestPriority) (some 2475) none false

theorem higher_priority_protects_iff_sample :
    ∃ eventP eventQ afterP afterQ,
      (sampleAllocation 90).run {} = (.ok eventP, afterP) ∧
      (sampleAllocation 100).run {} = (.ok eventQ, afterQ) ∧
      ((∀ currentStep, DeadlineAwarePolicy.evictionScore eventQ.intent currentStep ≤
          DeadlineAwarePolicy.evictionScore eventP.intent currentStep) ↔
        BonusCovered 90 100 (resolvedDeadline {} "req" (some 2475))) := by
  obtain ⟨eventP, afterP, hrunP, -⟩ := Stateful.exists_of_check (x := sampleAllocation 90)
    (s := {}) (p := fun _ _ => true) (by decide +kernel)
  obtain ⟨eventQ, afterQ, hrunQ, -⟩ := Stateful.exists_of_check (x := sampleAllocation 100)
    (s := {}) (p := fun _ _ => true) (by decide +kernel)
  exact ⟨eventP, eventQ, afterP, afterQ, hrunP, hrunQ,
    higher_priority_protects_iff {} 0 "req" 0 .decode (some 2475) none false (by decide) (by decide)
      (by decide) hrunP hrunQ⟩

/-- At priority 0 the slack is 495 us, at priority 10 it is 505 us, and the block becomes the easier one
to evict. -/
theorem higher_priority_eases_eviction :
    ∃ eventP eventQ afterP afterQ,
      (sampleAllocation 0).run {} = (.ok eventP, afterP) ∧
      (sampleAllocation 10).run {} = (.ok eventQ, afterQ) ∧
      DeadlineAwarePolicy.evictionScore eventP.intent 0 <
        DeadlineAwarePolicy.evictionScore eventQ.intent 0 := by
  obtain ⟨eventP, afterP, hrunP, hscoreP⟩ := Stateful.exists_of_check (x := sampleAllocation 0)
    (s := {}) (p := fun e _ => DeadlineAwarePolicy.evictionScore e.intent 0 < -400)
    (by decide +kernel)
  obtain ⟨eventQ, afterQ, hrunQ, hscoreQ⟩ := Stateful.exists_of_check (x := sampleAllocation 10)
    (s := {}) (p := fun e _ => -400 < DeadlineAwarePolicy.evictionScore e.intent 0)
    (by decide +kernel)
  exact ⟨eventP, eventQ, afterP, afterQ, hrunP, hrunQ,
    (of_decide_eq_true hscoreP).trans (of_decide_eq_true hscoreQ)⟩

end VLLMIntentAdapter

end KVMemoryIntent
