-- SUMMARY: Urgency of blocks, componentwise, and the monotonicity of the protection scores in it.
import Mathlib.Data.Int.ConditionallyCompleteOrder
import Mathlib.Order.WithBot
import KVDeadlineScheduler.Events
import KVDeadlineScheduler.Policies

/-!
# Urgency

A block is at least as urgent as another one when none of the fields the scores
read speaks against it. Each term of a score is compared on its own, and the
scores follow by addition.
-/

namespace KVMemoryIntent

/-! ## Terms of a score -/

/-- An optional bound, with a missing one as infinity. -/
def orInfinity : Option ℤ → WithTop ℤ
  | none => ⊤
  | some x => x

instance : ∀ x y : Option ℤ, Decidable (orInfinity x ≤ orInfinity y)
  | _, none => .isTrue le_top
  | none, some y => .isFalse (WithTop.not_top_le_coe y)
  | some _, some _ => decidable_of_iff _ WithTop.coe_le_coe.symm

/-- A protection term that grows as the bound gets tighter. -/
theorem elim_le_of_orInfinity_le {f : ℤ → ℚ} (hf : Antitone f) (hnonneg : ∀ x, 0 ≤ f x)
    {x y : Option ℤ} (h : orInfinity x ≤ orInfinity y) : y.elim 0 f ≤ x.elim 0 f := by
  cases y with
  | none =>
    cases x with
    | none => exact le_refl 0
    | some x => exact hnonneg x
  | some y =>
    cases x with
    | none => exact absurd (top_le_iff.mp h) (WithTop.coe_ne_top)
    | some x => exact hf (WithTop.coe_le_coe.mp h)

theorem elim_eq_getD {f : ℤ → ℚ} (hzero : f 0 = 0) (x : Option ℤ) : x.elim 0 f = f (x.getD 0) := by
  cases x with
  | none => exact hzero.symm
  | some x => rfl

/-- A term that grows with the value, where a missing value counts as 0. -/
theorem elim_le_of_getD_le {f : ℤ → ℚ} (hf : Monotone f) (hzero : f 0 = 0) {x y : Option ℤ}
    (h : x.getD 0 ≤ y.getD 0) : x.elim 0 f ≤ y.elim 0 f := by
  rw [elim_eq_getD hzero, elim_eq_getD hzero]
  exact hf h

/-- A share of the value, up to a bound. -/
theorem monotone_min_div {n : ℚ} (hn : 0 < n) (bound : ℚ) :
    Monotone fun x : ℤ => min ((x : ℚ) / n) bound := by
  intro x y h
  exact min_le_min_right bound (div_le_div_of_nonneg_right (Int.cast_le.mpr h) hn.le)

/-- The distance to a horizon, as far as it is positive. -/
theorem antitone_max_sub_div {n : ℚ} (hn : 0 < n) (horizon : ℚ) :
    Antitone fun x : ℤ => max 0 (horizon - (x : ℚ)) / n := by
  intro x y h
  have hcast : (x : ℚ) ≤ y := Int.cast_le.mpr h
  exact div_le_div_of_nonneg_right (max_le_max_left 0 (by linarith)) hn.le

theorem antitone_headroom (currentStep : ℤ) :
    Antitone fun t : ℤ => max (0 : ℚ) (64 - ((max (t - currentStep) 0 : ℤ) : ℚ)) := by
  intro x y h
  have hdist : max (x - currentStep) 0 ≤ max (y - currentStep) 0 := by omega
  have hcast : ((max (x - currentStep) 0 : ℤ) : ℚ) ≤ (max (y - currentStep) 0 : ℤ) :=
    Int.cast_le.mpr hdist
  exact max_le_max_left 0 (by linarith)

/-- A bonus that goes with a flag. -/
theorem ite_le_ite {p q : Prop} [Decidable p] [Decidable q] {x : ℚ} (hx : 0 ≤ x) (h : p → q) :
    (if p then x else 0) ≤ if q then x else 0 := by
  by_cases hp : p
  · rw [if_pos hp, if_pos (h hp)]
  · rw [if_neg hp]
    split
    · exact hx
    · exact le_refl 0

/-! ## The order -/

/-- COLD < WARM < HOT < DECODE_CRITICAL. -/
def Priority.rank : Priority → ℕ
  | .cold => 0
  | .warm => 1
  | .hot => 2
  | .decodeCritical => 3

/-- DONE < IDLE < PREFILL = ROLLBACK < VERIFY < DECODE. -/
def Phase.rank : Phase → ℕ
  | .done => 0
  | .idle => 1
  | .prefill => 2
  | .rollback => 2
  | .verify => 3
  | .decode => 4

namespace MemoryIntent

/-- `a` is at least as urgent as `b` in every component. A missing deadline,
slack or target step is infinitely late, a missing cost or reuse window is 0. -/
structure AtLeastAsUrgent (a b : MemoryIntent) : Prop where
  priority : b.priority.rank ≤ a.priority.rank
  phase : b.phase.rank ≤ a.phase.rank
  pinRequested : b.pinRequested = true → a.pinRequested = true
  requestPriority : b.requestPriority ≤ a.requestPriority
  recencyScore : b.recencyScore ≤ a.recencyScore
  lastAccessStep : b.lastAccessStep ≤ a.lastAccessStep
  recomputeCostUs : b.recomputeCostUs.getD 0 ≤ a.recomputeCostUs.getD 0
  deadlineUs : orInfinity a.deadlineUs ≤ orInfinity b.deadlineUs
  slackUs : orInfinity a.slackUs ≤ orInfinity b.slackUs
  targetDecodeStep : orInfinity a.targetDecodeStep ≤ orInfinity b.targetDecodeStep
  expectedReuseWindowTokens : a.expectedReuseWindowTokens.getD 0 ≤ b.expectedReuseWindowTokens.getD 0
  recomputeOk : a.recomputeOk = true → b.recomputeOk = true
  compressionOk : a.compressionOk = true → b.compressionOk = true
  uncommittedDraft : a.isDraft = true ∧ ¬a.isCommitted = true → b.isDraft = true ∧ ¬b.isCommitted = true
  isCommitted : b.isCommitted = true → a.isCommitted = true

instance (a b : MemoryIntent) : Decidable (a.AtLeastAsUrgent b) :=
  decidable_of_iff
    (b.priority.rank ≤ a.priority.rank ∧ b.phase.rank ≤ a.phase.rank ∧
      (b.pinRequested = true → a.pinRequested = true) ∧ b.requestPriority ≤ a.requestPriority ∧
      b.recencyScore ≤ a.recencyScore ∧ b.lastAccessStep ≤ a.lastAccessStep ∧
      b.recomputeCostUs.getD 0 ≤ a.recomputeCostUs.getD 0 ∧
      orInfinity a.deadlineUs ≤ orInfinity b.deadlineUs ∧ orInfinity a.slackUs ≤ orInfinity b.slackUs ∧
      orInfinity a.targetDecodeStep ≤ orInfinity b.targetDecodeStep ∧
      a.expectedReuseWindowTokens.getD 0 ≤ b.expectedReuseWindowTokens.getD 0 ∧
      (a.recomputeOk = true → b.recomputeOk = true) ∧
      (a.compressionOk = true → b.compressionOk = true) ∧
      (a.isDraft = true ∧ ¬a.isCommitted = true → b.isDraft = true ∧ ¬b.isCommitted = true) ∧
      (b.isCommitted = true → a.isCommitted = true))
    ⟨fun ⟨h₁, h₂, h₃, h₄, h₅, h₆, h₇, h₈, h₉, h₁₀, h₁₁, h₁₂, h₁₃, h₁₄, h₁₅⟩ =>
        ⟨h₁, h₂, h₃, h₄, h₅, h₆, h₇, h₈, h₉, h₁₀, h₁₁, h₁₂, h₁₃, h₁₄, h₁₅⟩,
      fun ⟨h₁, h₂, h₃, h₄, h₅, h₆, h₇, h₈, h₉, h₁₀, h₁₁, h₁₂, h₁₃, h₁₄, h₁₅⟩ =>
        ⟨h₁, h₂, h₃, h₄, h₅, h₆, h₇, h₈, h₉, h₁₀, h₁₁, h₁₂, h₁₃, h₁₄, h₁₅⟩⟩

end MemoryIntent

/-! ## Weights by phase and priority -/

/-- What the phase adds to the deadline score. -/
def Phase.deadlineWeight : Phase → ℚ
  | .decode => 120
  | .verify => 30
  | _ => 0

/-- What the phase takes from the risk. -/
def Phase.riskDiscount : Phase → ℚ
  | .done => 140
  | .idle => 60
  | _ => 0

/-- What the phase adds to the eviction score. -/
def Phase.evictionWeight : Phase → ℚ
  | .done => 120
  | .idle => 50
  | _ => 0

/-- What the priority adds to the deadline score. -/
def Priority.deadlineWeight : Priority → ℚ
  | .decodeCritical => 300
  | .hot => 80
  | .warm => 30
  | .cold => 0

theorem Phase.deadlineWeight_mono {p q : Phase} (h : p.rank ≤ q.rank) :
    p.deadlineWeight ≤ q.deadlineWeight := by
  revert h
  cases p <;> cases q <;> norm_num [Phase.rank, Phase.deadlineWeight]

theorem Phase.riskDiscount_anti {p q : Phase} (h : p.rank ≤ q.rank) :
    q.riskDiscount ≤ p.riskDiscount := by
  revert h
  cases p <;> cases q <;> norm_num [Phase.rank, Phase.riskDiscount]

theorem Phase.evictionWeight_anti {p q : Phase} (h : p.rank ≤ q.rank) :
    q.evictionWeight ≤ p.evictionWeight := by
  revert h
  cases p <;> cases q <;> norm_num [Phase.rank, Phase.evictionWeight]

theorem Priority.deadlineWeight_mono {p q : Priority} (h : p.rank ≤ q.rank) :
    p.deadlineWeight ≤ q.deadlineWeight := by
  revert h
  cases p <;> cases q <;> norm_num [Priority.rank, Priority.deadlineWeight]

theorem Priority.evictionWeight_anti {p q : Priority} (h : p.rank ≤ q.rank) :
    IntentAwarePolicy.priorityWeight q ≤ IntentAwarePolicy.priorityWeight p := by
  revert h
  cases p <;> cases q <;> norm_num [Priority.rank, IntentAwarePolicy.priorityWeight]

namespace MemoryIntent

variable {a b : MemoryIntent}

/-! ## Scores -/

theorem effectiveDeadlineScore_mono (h : a.AtLeastAsUrgent b) (currentStep : ℤ) :
    b.effectiveDeadlineScore currentStep ≤ a.effectiveDeadlineScore currentStep := by
  have heq : ∀ m : MemoryIntent, m.effectiveDeadlineScore currentStep =
      m.deadlineUs.elim 0 (fun d => max 0 (10000 - (d : ℚ)) / 20)
      + m.slackUs.elim 0 (fun s => max 0 (5000 - (s : ℚ)) / 10)
      + m.targetDecodeStep.elim 0 (fun t => max 0 (64 - ((max (t - currentStep) 0 : ℤ) : ℚ)))
      + m.requestPriority * 2 + m.phase.deadlineWeight + m.priority.deadlineWeight
      + m.recomputeCostUs.elim 0 (fun c => min ((c : ℚ) / 25) 250)
      + (if m.pinRequested then 400 else 0) := fun _ => rfl
  have hdeadline := elim_le_of_orInfinity_le (antitone_max_sub_div (n := 20) (by norm_num) 10000)
    (fun x => div_nonneg (le_max_left _ _) (by norm_num)) h.deadlineUs
  have hslack := elim_le_of_orInfinity_le (antitone_max_sub_div (n := 10) (by norm_num) 5000)
    (fun x => div_nonneg (le_max_left _ _) (by norm_num)) h.slackUs
  have htarget := elim_le_of_orInfinity_le (antitone_headroom currentStep)
    (fun x => le_max_left _ _) h.targetDecodeStep
  have hrequest : (b.requestPriority : ℚ) ≤ a.requestPriority := Int.cast_le.mpr h.requestPriority
  have hphase := Phase.deadlineWeight_mono h.phase
  have hpriority := Priority.deadlineWeight_mono h.priority
  have hcost := elim_le_of_getD_le (monotone_min_div (n := 25) (by norm_num) 250) (by norm_num)
    h.recomputeCostUs
  have hpin := ite_le_ite (x := 400) (by norm_num) h.pinRequested
  rw [heq, heq]
  linarith

theorem evictionRiskScore_mono (h : a.AtLeastAsUrgent b) (currentStep : ℤ) :
    b.evictionRiskScore currentStep ≤ a.evictionRiskScore currentStep := by
  have heq : ∀ m : MemoryIntent, m.evictionRiskScore currentStep =
      m.effectiveDeadlineScore currentStep + m.recencyScore * 40
      + (if m.isCommitted then 15 else 0) - (if m.isDraft ∧ ¬m.isCommitted then 35 else 0)
      - (if m.recomputeOk then 25 else 0) - (if m.compressionOk then 15 else 0)
      - m.expectedReuseWindowTokens.elim 0 (fun w => min ((w : ℚ) / 8) 80)
      - m.phase.riskDiscount := fun _ => rfl
  have hdeadline := effectiveDeadlineScore_mono h currentStep
  have hrecency := h.recencyScore
  have hcommitted := ite_le_ite (x := 15) (by norm_num) h.isCommitted
  have hdraft := ite_le_ite (x := 35) (by norm_num) h.uncommittedDraft
  have hrecompute := ite_le_ite (x := 25) (by norm_num) h.recomputeOk
  have hcompression := ite_le_ite (x := 15) (by norm_num) h.compressionOk
  have hreuse := elim_le_of_getD_le (monotone_min_div (n := 8) (by norm_num) 80) (by norm_num)
    h.expectedReuseWindowTokens
  have hphase := Phase.riskDiscount_anti h.phase
  rw [heq, heq]
  linarith

end MemoryIntent

namespace IntentAwarePolicy

variable {a b : MemoryIntent}

theorem evictionScore_anti (h : a.AtLeastAsUrgent b) (currentStep : ℤ) :
    evictionScore a currentStep ≤ evictionScore b currentStep := by
  have heq : ∀ m : MemoryIntent, evictionScore m currentStep =
      priorityWeight m.priority - (if m.pinRequested then 900 else 0) + m.phase.evictionWeight
      + ((100 - m.requestPriority : ℤ) : ℚ)
      + m.expectedReuseWindowTokens.elim 0 (fun w => min ((w : ℚ) / 6) 120)
      + (if m.recomputeOk then 30 else 0) + (if m.compressionOk then 20 else 0)
      + (if m.isDraft ∧ ¬m.isCommitted then 45 else 0)
      - m.recomputeCostUs.elim 0 (fun c => min ((c : ℚ) / 40) 180) - m.recencyScore * 60
      + min (((max (currentStep - m.lastAccessStep) 0 : ℤ) : ℚ) / 4) 35
      - max (m.evictionRiskScore currentStep) 0 / 40 := fun _ => rfl
  have hpriority := Priority.evictionWeight_anti h.priority
  have hpin := ite_le_ite (x := 900) (by norm_num) h.pinRequested
  have hphase := Phase.evictionWeight_anti h.phase
  have hrequest : ((100 - a.requestPriority : ℤ) : ℚ) ≤ (100 - b.requestPriority : ℤ) := by
    have := h.requestPriority
    exact Int.cast_le.mpr (by omega)
  have hreuse := elim_le_of_getD_le (monotone_min_div (n := 6) (by norm_num) 120) (by norm_num)
    h.expectedReuseWindowTokens
  have hrecompute := ite_le_ite (x := 30) (by norm_num) h.recomputeOk
  have hcompression := ite_le_ite (x := 20) (by norm_num) h.compressionOk
  have hdraft := ite_le_ite (x := 45) (by norm_num) h.uncommittedDraft
  have hcost := elim_le_of_getD_le (monotone_min_div (n := 40) (by norm_num) 180) (by norm_num)
    h.recomputeCostUs
  have hrecency := h.recencyScore
  have hage : min (((max (currentStep - a.lastAccessStep) 0 : ℤ) : ℚ) / 4) 35 ≤
      min (((max (currentStep - b.lastAccessStep) 0 : ℤ) : ℚ) / 4) 35 := by
    have := h.lastAccessStep
    exact monotone_min_div (n := 4) (by norm_num) 35 (by omega)
  have hrisk : max (b.evictionRiskScore currentStep) 0 ≤ max (a.evictionRiskScore currentStep) 0 :=
    max_le_max_right 0 (MemoryIntent.evictionRiskScore_mono h currentStep)
  rw [heq, heq]
  linarith

end IntentAwarePolicy

namespace DeadlineAwarePolicy

variable {a b : MemoryIntent}

/-- What the phase DECODE takes from the score. -/
def decodeProtection (block : MemoryIntent) : ℚ := if block.phase = .decode then 110 else 0

theorem antitone_deadlineProtection :
    Antitone fun d : ℤ => if d ≤ 1000 then (320 : ℚ) else if d ≤ 5000 then 140 else 25 := by
  intro x y h
  dsimp only
  split_ifs <;> first | omega | norm_num

theorem antitone_slackProtection :
    Antitone fun s : ℤ => if s ≤ 500 then (260 : ℚ) else if s ≤ 2000 then 120 else 0 := by
  intro x y h
  dsimp only
  split_ifs <;> first | omega | norm_num

/-- The costs from which a block is expensive to recompute. -/
theorem elim_cost_le {x y : Option ℤ} (h : x.getD 0 ≤ y.getD 0) :
    x.elim (0 : ℚ) (fun c => if 4000 ≤ c then 80 else 0) ≤
      y.elim 0 (fun c => if 4000 ≤ c then 80 else 0) := by
  refine elim_le_of_getD_le (f := fun c => if 4000 ≤ c then (80 : ℚ) else 0) (fun c d hcd => ?_)
    (by norm_num) h
  exact ite_le_ite (by norm_num) fun hc => hc.trans hcd

/-- The score of the more urgent block is lower by what the phase DECODE alone
protects it more. -/
theorem evictionScore_add_le (h : a.AtLeastAsUrgent b) (currentStep : ℤ) :
    evictionScore a currentStep + (decodeProtection a - decodeProtection b) ≤
      evictionScore b currentStep := by
  have hintent := IntentAwarePolicy.evictionScore_anti h currentStep
  have hdeadline := elim_le_of_orInfinity_le antitone_deadlineProtection
    (fun x => by split_ifs <;> norm_num) h.deadlineUs
  have hslack := elim_le_of_orInfinity_le antitone_slackProtection
    (fun x => by split_ifs <;> norm_num) h.slackUs
  have hrequest : (if 80 ≤ b.requestPriority then (90 : ℚ) else 0) ≤
      if 80 ≤ a.requestPriority then 90 else 0 :=
    ite_le_ite (by norm_num) fun hb => hb.trans h.requestPriority
  have hcost := elim_cost_le h.recomputeCostUs
  have hcritical : (if b.priority = .decodeCritical then (400 : ℚ) else 0) ≤
      if a.priority = .decodeCritical then 400 else 0 := by
    refine ite_le_ite (by norm_num) fun hb => ?_
    have hrank := h.priority
    rw [hb] at hrank
    cases ha : a.priority <;> simp [ha, Priority.rank] at hrank ⊢
  have hrisk := MemoryIntent.evictionRiskScore_mono h currentStep
  have hdone : (if a.phase = .done then (40 : ℚ) else 0) ≤ if b.phase = .done then 40 else 0 := by
    refine ite_le_ite (by norm_num) fun ha => ?_
    have hrank := h.phase
    rw [ha] at hrank
    cases hb : b.phase <;> simp [hb, Phase.rank] at hrank ⊢
  have hcold : (if a.priority = .cold ∧ a.deadlineUs = none then (35 : ℚ) else 0) ≤
      if b.priority = .cold ∧ b.deadlineUs = none then 35 else 0 := by
    refine ite_le_ite (by norm_num) fun ha => ?_
    have hrank := h.priority
    have hdeadline := h.deadlineUs
    rw [ha.1] at hrank
    rw [ha.2] at hdeadline
    constructor
    · cases hb : b.priority <;> simp [hb, Priority.rank] at hrank ⊢
    · cases hb : b.deadlineUs <;> simp [hb, orInfinity] at hdeadline ⊢
  unfold evictionScore decodeProtection
  linarith

theorem evictionScore_anti (h : a.AtLeastAsUrgent b) (currentStep : ℤ) :
    evictionScore a currentStep ≤ evictionScore b currentStep := by
  have hscore := evictionScore_add_le h currentStep
  have hdecode : decodeProtection b ≤ decodeProtection a := by
    refine ite_le_ite (by norm_num) fun hb => ?_
    have hrank := h.phase
    rw [hb] at hrank
    cases ha : a.phase <;> simp [ha, Phase.rank] at hrank ⊢
  linarith

/-- The phase DECODE decides between blocks that do not differ otherwise. -/
theorem evictionScore_lt_of_decode (h : a.AtLeastAsUrgent b) (ha : a.phase = .decode)
    (hb : b.phase ≠ .decode) (currentStep : ℤ) :
    evictionScore a currentStep < evictionScore b currentStep := by
  have hscore := evictionScore_add_le h currentStep
  rw [decodeProtection, decodeProtection, if_pos ha, if_neg hb] at hscore
  linarith

end DeadlineAwarePolicy

/-- A decode-critical block with a deadline and a recompute cost. -/
def urgentIntent : MemoryIntent :=
  { sampleIntent "urgent" {.hbm, .dram} .hbm with
    phase := .decode
    priority := .decodeCritical
    requestPriority := 90
    deadlineUs := some 800
    slackUs := some 300
    recomputeCostUs := some 6000
    pinRequested := true }

/-- A cold block without a deadline, with a long reuse window. -/
def relaxedIntent : MemoryIntent :=
  { sampleIntent "relaxed" {.hbm, .dram} .hbm with
    phase := .idle
    priority := .cold
    slackUs := some 4000
    expectedReuseWindowTokens := some 720
    recomputeOk := true
    isDraft := true }

/-- Protection is monotone in urgency under both intent-aware policies. -/
theorem protection_monotone {a b : MemoryIntent} (h : a.AtLeastAsUrgent b) (currentStep : ℤ) :
    IntentAwarePolicy.evictionScore a currentStep ≤ IntentAwarePolicy.evictionScore b currentStep ∧
      DeadlineAwarePolicy.evictionScore a currentStep ≤
        DeadlineAwarePolicy.evictionScore b currentStep :=
  ⟨IntentAwarePolicy.evictionScore_anti h currentStep,
    DeadlineAwarePolicy.evictionScore_anti h currentStep⟩

/-- A tight deadline on a decode-critical block against a cold one without. -/
theorem protection_monotone_deadline :
    IntentAwarePolicy.evictionScore urgentIntent 7 ≤ IntentAwarePolicy.evictionScore relaxedIntent 7 ∧
      DeadlineAwarePolicy.evictionScore urgentIntent 7 ≤
        DeadlineAwarePolicy.evictionScore relaxedIntent 7 :=
  protection_monotone (by decide +kernel) 7

end KVMemoryIntent
