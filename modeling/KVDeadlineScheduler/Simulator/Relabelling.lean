-- SUMMARY: Runs under other names, another unit of size and a later start: the same run, relabelled.
import Mathlib.Algebra.Order.Group.MinMax
import Mathlib.Algebra.BigOperators.Ring.Finset
import KVDeadlineScheduler.Simulator.Determinism

/-!
# Relabelling

A simulator does not look at object names but for their order, at sizes but for
their ratio to the capacities, at steps but for their differences, or at the name of
its policy. A `Relabelling` changes all of them, and a run of the relabelled trace is
the run relabelled.
-/

namespace KVMemoryIntent

/-- New object names in the order of the old ones, new policy names, the number of new
units of size in an old one, and how many steps later everything happens. -/
structure Relabelling where
  rename : String → String
  policyName : String → String
  unit : ℤ
  delay : ℕ
  rename_strictMono : StrictMono rename
  rename_eq_empty : ∀ name, rename name = "" ↔ name = ""
  unit_pos : 0 < unit

namespace Relabelling

variable (τ : Relabelling)

def later (step : ℤ) : ℤ := step + τ.delay

def intent (m : MemoryIntent) : MemoryIntent :=
  { m with
    objectId := τ.rename m.objectId
    sizeBytes := τ.unit * m.sizeBytes
    arrivalStep := m.arrivalStep.map τ.later
    targetDecodeStep := m.targetDecodeStep.map τ.later
    createdStep := τ.later m.createdStep
    lastAccessStep := τ.later m.lastAccessStep }

@[simp] theorem intent_objectId (m : MemoryIntent) : (τ.intent m).objectId = τ.rename m.objectId := rfl

@[simp] theorem intent_sizeBytes (m : MemoryIntent) : (τ.intent m).sizeBytes = τ.unit * m.sizeBytes := rfl

@[simp] theorem intent_lastAccessStep (m : MemoryIntent) :
    (τ.intent m).lastAccessStep = τ.later m.lastAccessStep := rfl

theorem rename_injective : Function.Injective τ.rename := τ.rename_strictMono.injective

@[simp] theorem rename_inj {id id' : String} : τ.rename id = τ.rename id' ↔ id = id' :=
  τ.rename_injective.eq_iff

@[simp] theorem later_inj {step step' : ℤ} : τ.later step = τ.later step' ↔ step = step' := by
  simp [later]

@[simp] theorem later_lt {step step' : ℤ} : τ.later step < τ.later step' ↔ step < step' := by
  simp [later]

@[simp] theorem later_sub (step step' : ℤ) : τ.later step - τ.later step' = step - step' := by
  simp [later]

theorem unit_mul_le {x y : ℤ} : τ.unit * x ≤ τ.unit * y ↔ x ≤ y := mul_le_mul_iff_right₀ τ.unit_pos

theorem unit_mul_lt {x y : ℤ} : τ.unit * x < τ.unit * y ↔ x < y := mul_lt_mul_iff_right₀ τ.unit_pos

theorem unit_mul_max (x y : ℤ) : τ.unit * max x y = max (τ.unit * x) (τ.unit * y) :=
  mul_max_of_nonneg x y τ.unit_pos.le

theorem unit_mul_inj {x y : ℤ} : τ.unit * x = τ.unit * y ↔ x = y :=
  mul_right_inj' τ.unit_pos.ne'

/-! ## Intents and events -/

section Intents

variable (m : MemoryIntent) (currentStep : ℤ)

/-- The checks pass or fail alike. -/
theorem postInit_intent : (τ.intent m).postInit = m.postInit.map τ.intent := by
  have hsize : τ.unit * m.sizeBytes ≤ 0 ↔ m.sizeBytes ≤ 0 := by
    simpa using τ.unit_mul_le (x := m.sizeBytes) (y := 0)
  unfold MemoryIntent.postInit
  simp only [intent, τ.rename_eq_empty, hsize, apply_ite (Except.map τ.intent)]
  rfl

theorem valid_intent {m : MemoryIntent} (h : m.Valid) : (τ.intent m).Valid := by
  have hpost : (τ.intent m).postInit = .ok (τ.intent m) := by
    rw [postInit_intent, h.postInit]
    rfl
  exact (MemoryIntent.postInit_ok hpost).2

/-- Merging reads and writes the fields one by one. -/
theorem overwrite_intent (existing incoming : MemoryIntent) (fields : List IntentField) :
    overwrite (τ.intent existing) (τ.intent incoming) fields =
      τ.intent (overwrite existing incoming fields) := by
  simp only [overwrite, intent, apply_ite (Option.map τ.later), apply_ite τ.later,
    apply_ite (fun size => τ.unit * size)]

theorem effectiveDeadlineScore_intent :
    (τ.intent m).effectiveDeadlineScore (τ.later currentStep) = m.effectiveDeadlineScore currentStep := by
  simp only [MemoryIntent.effectiveDeadlineScore, intent, Option.elim_map, Function.comp_def, later_sub]
  rfl

theorem evictionRiskScore_intent :
    (τ.intent m).evictionRiskScore (τ.later currentStep) = m.evictionRiskScore currentStep := by
  unfold MemoryIntent.evictionRiskScore
  rw [effectiveDeadlineScore_intent]
  rfl

end Intents

def event (e : MemoryIntentEvent) : MemoryIntentEvent where
  step := τ.later e.step
  eventType := e.eventType
  intent := τ.intent e.intent
  reason := e.reason
  latencyUs := e.latencyUs
  step_nonneg := add_nonneg e.step_nonneg (Int.natCast_nonneg τ.delay)
  latencyUs_nonneg := e.latencyUs_nonneg
  intent_valid := τ.valid_intent e.intent_valid

/-! ## Policies -/

section Keys

variable (a b : MemoryIntent)

theorem lruKey_lt : LRUPolicy.key (τ.intent a) < LRUPolicy.key (τ.intent b) ↔
    LRUPolicy.key a < LRUPolicy.key b := by
  simp [LRUPolicy.key, Prod.Lex.toLex_lt_toLex, τ.unit_mul_lt, τ.unit_mul_inj, τ.rename_strictMono.lt_iff_lt]

theorem hotColdKey_lt : HotColdPolicy.key (τ.intent a) < HotColdPolicy.key (τ.intent b) ↔
    HotColdPolicy.key a < HotColdPolicy.key b := by
  simp only [HotColdPolicy.key, Prod.Lex.toLex_lt_toLex, lruKey_lt]
  rfl

theorem predictiveHotnessKey_lt :
    PredictiveHotnessPolicy.key (τ.intent a) < PredictiveHotnessPolicy.key (τ.intent b) ↔
      PredictiveHotnessPolicy.key a < PredictiveHotnessPolicy.key b := by
  simp only [PredictiveHotnessPolicy.key, Prod.Lex.toLex_lt_toLex, lruKey_lt]
  rfl

theorem intentAwareScore_intent (currentStep : ℤ) :
    IntentAwarePolicy.evictionScore (τ.intent a) (τ.later currentStep) =
      IntentAwarePolicy.evictionScore a currentStep := by
  unfold IntentAwarePolicy.evictionScore
  rw [evictionRiskScore_intent]
  simp only [intent_lastAccessStep, later_sub]
  rfl

theorem deadlineAwareScore_intent (currentStep : ℤ) :
    DeadlineAwarePolicy.evictionScore (τ.intent a) (τ.later currentStep) =
      DeadlineAwarePolicy.evictionScore a currentStep := by
  unfold DeadlineAwarePolicy.evictionScore
  rw [intentAwareScore_intent, evictionRiskScore_intent]
  rfl

end Keys

end Relabelling

namespace PlacementPolicy

/-- A policy that chooses the relabelled victim among relabelled blocks, and
prefetches a relabelled block when it prefetches the block. -/
structure Equivariant (p : PlacementPolicy) : Prop where
  chooseVictim : ∀ (τ : Relabelling) (blocks : List MemoryIntent)
      (capacityBytes capacityBytes' currentStep : ℤ),
    p.chooseVictim (blocks.map τ.intent) capacityBytes' (τ.later currentStep) =
      (p.chooseVictim blocks capacityBytes currentStep).map τ.intent
  shouldPrefetch : ∀ (τ : Relabelling) (block : MemoryIntent) (currentStep : ℤ),
    p.shouldPrefetch (τ.intent block) (τ.later currentStep) = p.shouldPrefetch block currentStep

theorem equivariant_leastKey {β : Type} [LinearOrder β] (name : String) {key : MemoryIntent → β}
    (hkey : ∀ (τ : Relabelling) a b, key (τ.intent a) < key (τ.intent b) ↔ key a < key b) :
    Equivariant (leastKey name key) where
  chooseVictim τ blocks _ _ _ := Selection.argmin_map (hkey τ) blocks
  shouldPrefetch _ _ _ := rfl

theorem admissible_map (τ : Relabelling) (blocks : List MemoryIntent) :
    IntentAwarePolicy.admissible (blocks.map τ.intent) =
      (IntentAwarePolicy.admissible blocks).map τ.intent := by
  have hfilter : (blocks.map τ.intent).filter (fun block => !block.pinRequested) =
      (blocks.filter fun block => !block.pinRequested).map τ.intent := List.filter_map
  simp only [IntentAwarePolicy.admissible, hfilter, List.map_eq_nil_iff, apply_ite (List.map τ.intent)]

/-- The score is compared before the size and the name. -/
theorem equivariant_subclass (name : String) {score : MemoryIntent → ℤ → ℚ}
    {prefetch : MemoryIntent → ℤ → Bool} (explain : MemoryIntent → List MemoryIntent → ℤ → String)
    (hscore : ∀ (τ : Relabelling) block step, score (τ.intent block) (τ.later step) = score block step)
    (hprefetch : ∀ (τ : Relabelling) block step,
      prefetch (τ.intent block) (τ.later step) = prefetch block step) :
    Equivariant (IntentAwarePolicy.subclass name score prefetch explain) where
  chooseVictim τ blocks _ _ currentStep := by
    have hkey : ∀ a b, IntentAwarePolicy.key score (τ.later currentStep) (τ.intent a) <
          IntentAwarePolicy.key score (τ.later currentStep) (τ.intent b) ↔
        IntentAwarePolicy.key score currentStep a < IntentAwarePolicy.key score currentStep b := by
      intro a b
      simp [IntentAwarePolicy.key, Prod.Lex.toLex_lt_toLex, hscore, τ.unit_mul_lt, τ.unit_mul_inj,
        τ.rename_strictMono.lt_iff_lt]
    simp only [IntentAwarePolicy.subclass, IntentAwarePolicy.chooseVictim, IntentAwarePolicy.greatestKey,
      admissible_map]
    exact Selection.argmax_map hkey _
  shouldPrefetch := hprefetch

theorem equivariant_of_name {name : String} {p : PlacementPolicy} (h : policyFromName name = .ok p) :
    p.Equivariant := by
  simp only [policyFromName] at h
  split at h
  · cases h
    exact equivariant_leastKey _ Relabelling.lruKey_lt
  split at h
  · cases h
    exact equivariant_leastKey _ Relabelling.hotColdKey_lt
  split at h
  · cases h
    have hleast := equivariant_leastKey "PredictiveHotness" Relabelling.predictiveHotnessKey_lt
    exact ⟨hleast.chooseVictim, hleast.shouldPrefetch⟩
  split at h
  · cases h
    exact equivariant_subclass _ _ Relabelling.intentAwareScore_intent fun _ _ _ => rfl
  split at h
  · cases h
    exact equivariant_subclass _ _ Relabelling.deadlineAwareScore_intent fun _ _ _ => rfl
  · cases h

end PlacementPolicy

/-! ## States -/

namespace Relabelling

variable (τ : Relabelling)

def record (r : DecisionRecord) : DecisionRecord :=
  { r with
    step := τ.later r.step
    policy := τ.policyName r.policy
    victimObjectId := r.victimObjectId.map τ.rename }

/-- The step before the first one stays what it is. -/
def decayStep (step : ℤ) : ℤ := if step = -1 then -1 else τ.later step

def state (s : SimulatorState) : SimulatorState :=
  { s with
    liveBlocks := s.liveBlocks.rename τ.rename_injective τ.intent
    hbmBlocks := s.hbmBlocks.image τ.rename
    dramBlocks := s.dramBlocks.image τ.rename
    decisionLog := s.decisionLog.map τ.record
    peakHbmDemandBytes := τ.unit * s.peakHbmDemandBytes
    actualPeakHbmUsedBytes := τ.unit * s.actualPeakHbmUsedBytes
    lastDecayStep := τ.decayStep s.lastDecayStep }

def simulator (sim : KVMemorySimulator) : KVMemorySimulator :=
  { sim with
    policy := { sim.policy with name := τ.policyName sim.policy.name }
    hbmCapacityBytes := τ.unit * sim.hbmCapacityBytes
    dramCapacityBytes := τ.unit * sim.dramCapacityBytes }

/-- The relabelled figures. A trace without events has no steps to delay. -/
def result (r : SimulationResult) : SimulationResult :=
  { r with
    policyName := τ.policyName r.policyName
    totalSteps := if r.totalSteps = 0 then 0 else τ.later r.totalSteps
    hbmCapacityBytes := τ.unit * r.hbmCapacityBytes
    dramCapacityBytes := τ.unit * r.dramCapacityBytes
    peakHbmDemandBytes := τ.unit * r.peakHbmDemandBytes
    actualPeakHbmUsedBytes := τ.unit * r.actualPeakHbmUsedBytes
    hbmBytesSaved := τ.unit * r.hbmBytesSaved
    finalHbmUsedBytes := τ.unit * r.finalHbmUsedBytes
    finalDramUsedBytes := τ.unit * r.finalDramUsedBytes }

def check : KVMemorySimulator.CapacityCheck → KVMemorySimulator.CapacityCheck
  | .fits => .fits
  | .allPinned => .allPinned
  | .noVictim => .noVictim
  | .displace victim => .displace (τ.intent victim)

/-- The tiers of a relabelled block are enumerated as those of the block. The order of
the blocks themselves is free. -/
def TiersAlike (order order' : SetOrder) : Prop :=
  ∀ s log block, order'.allowedTiers ((τ.state s).withLog log) (τ.intent block) = order.allowedTiers s block

@[simp] theorem state_initial : τ.state SimulatorState.initial = SimulatorState.initial := by
  simp [state, SimulatorState.initial, decayStep]

section Sizes

variable (s : SimulatorState) (ids : Finset String)

theorem sizeOf_state (id : String) : (τ.state s).sizeOf (τ.rename id) = τ.unit * s.sizeOf id := by
  simp only [SimulatorState.sizeOf, state, OrderedDict.get?_rename]
  cases s.liveBlocks.get? id with
  | none => simp
  | some block => rfl

theorem usedBytes_state : (τ.state s).usedBytes (ids.image τ.rename) = τ.unit * s.usedBytes ids := by
  unfold SimulatorState.usedBytes
  rw [Finset.sum_image fun a _ b _ hab => τ.rename_injective hab, Finset.mul_sum]
  exact Finset.sum_congr rfl fun id _ => τ.sizeOf_state s id

theorem hbmUsed_state : (τ.state s).hbmUsed = τ.unit * s.hbmUsed := τ.usedBytes_state s s.hbmBlocks

theorem dramUsed_state : (τ.state s).dramUsed = τ.unit * s.dramUsed := τ.usedBytes_state s s.dramBlocks

theorem recordUsage_state : (τ.state s).recordUsage = τ.state s.recordUsage := by
  unfold SimulatorState.recordUsage
  rw [hbmUsed_state]
  simp only [state, ← τ.unit_mul_max]

end Sizes

/-! ### Another name for the policy -/

/-- The relabelling that only gives the policy another name. -/
def named (name : String) : Relabelling where
  rename id := id
  policyName _ := name
  unit := 1
  delay := 0
  rename_strictMono := strictMono_id
  rename_eq_empty _ := Iff.rfl
  unit_pos := by decide

section Named

variable {name : String}

theorem later_named (step : ℤ) : (named name).later step = step := add_zero step

theorem event_named (e : MemoryIntentEvent) : (named name).event e = e := by
  have hlater : (named name).later = id := funext later_named
  have hunit : (named name).unit * e.intent.sizeBytes = e.intent.sizeBytes := one_mul _
  simp only [event, intent, later_named, hlater, hunit, Option.map_id]
  rfl

theorem result_named (r : SimulationResult) : (named name).result r = { r with policyName := name } := by
  have hunit : ∀ bytes : ℤ, (named name).unit * bytes = bytes := one_mul
  simp only [result, later_named, hunit]
  split
  · rename_i hsteps
    rw [← hsteps]
    rfl
  · rfl

end Named

end Relabelling

namespace KVMemorySimulator

open SimulatorState

variable {τ : Relabelling} {sim : KVMemorySimulator} {order order' : SetOrder} {s s' t : SimulatorState}
  {log : List DecisionRecord} {currentStep : ℤ} {victim : MemoryIntent}

theorem recordUsage_relabelled :
    ((τ.state s).withLog log).recordUsage = (τ.state s.recordUsage).withLog log := by
  rw [← τ.recordUsage_state]
  rfl

/-! ## The capacity loop -/

/-- The relabelled candidates are those of the relabelled state, in some order. -/
theorem candidates_relabelled :
    ((order.candidates s).map τ.intent).Perm (order'.candidates ((τ.state s).withLog log)) := by
  have hids : ((order.hbmBlocks s).map τ.rename).Perm (order'.hbmBlocks ((τ.state s).withLog log)) := by
    rw [List.perm_ext_iff_of_nodup ((order.nodup_hbmBlocks s).map τ.rename_injective)
      (order'.nodup_hbmBlocks _)]
    intro id
    rw [order'.mem_hbmBlocks]
    simp [order.mem_hbmBlocks, withLog, Relabelling.state]
  have hblocks : (order.candidates s).map τ.intent =
      ((order.hbmBlocks s).map τ.rename).filterMap (τ.state s).liveBlocks.get? := by
    rw [SetOrder.candidates, List.map_filterMap, List.filterMap_map]
    refine List.filterMap_congr fun id _ => ?_
    exact (OrderedDict.get?_rename τ.rename_injective τ.intent s.liveBlocks id).symm
  rw [hblocks]
  exact hids.filterMap _

theorem candidates_map_inj (hs : s.Consistent) :
    ∀ a ∈ (order.candidates s).map τ.intent, ∀ b ∈ (order.candidates s).map τ.intent,
      a.objectId = b.objectId → a = b := by
  intro a ha b hb hid
  obtain ⟨a', ha', rfl⟩ := List.mem_map.mp ha
  obtain ⟨b', hb', rfl⟩ := List.mem_map.mp hb
  rw [candidates_inj hs a' ha' b' hb' (τ.rename_injective hid)]

theorem checkCapacity_relabelled (hp : sim.policy.Equivariant) (hindependent : sim.policy.OrderIndependent)
    (hs : s.Consistent) :
    (τ.simulator sim).checkCapacity order' ((τ.state s).withLog log) (τ.later currentStep) =
      τ.check (sim.checkCapacity order s currentStep) := by
  have hperm : ((order.candidates s).map τ.intent).Perm (order'.candidates ((τ.state s).withLog log)) :=
    candidates_relabelled
  have hused : ((τ.state s).withLog log).hbmUsed ≤ τ.unit * sim.hbmCapacityBytes ↔
      s.hbmUsed ≤ sim.hbmCapacityBytes := by
    have heq : ((τ.state s).withLog log).hbmUsed = τ.unit * s.hbmUsed := τ.hbmUsed_state s
    rw [heq, τ.unit_mul_le]
  have hnil : order'.candidates ((τ.state s).withLog log) ≠ [] ↔ order.candidates s ≠ [] := by
    rw [ne_eq, ne_eq, ← List.length_eq_zero_iff, ← List.length_eq_zero_iff, ← hperm.length_eq,
      List.length_map]
  have hpinned : (order'.candidates ((τ.state s).withLog log)).all (·.pinRequested) =
      (order.candidates s).all (·.pinRequested) := by
    rw [← hperm.all_eq, List.all_map]
    rfl
  have hvictim : sim.policy.chooseVictim (order'.candidates ((τ.state s).withLog log))
        (τ.unit * sim.hbmCapacityBytes) (τ.later currentStep) =
      (sim.policy.chooseVictim (order.candidates s) sim.hbmCapacityBytes currentStep).map τ.intent := by
    rw [← hindependent (τ.unit * sim.hbmCapacityBytes) (τ.later currentStep) hperm (candidates_map_inj hs)]
    exact hp.chooseVictim τ _ _ _ _
  unfold checkCapacity
  simp only [Relabelling.simulator, hused, hnil, hpinned, hvictim]
  split
  · rfl
  split
  · rfl
  cases sim.policy.chooseVictim (order.candidates s) sim.hbmCapacityBytes currentStep with
  | none => rfl
  | some victim => rfl

theorem countDisplaced_relabelled :
    countDisplaced ((τ.state s).withLog log) (τ.intent victim) =
      (τ.state (countDisplaced s victim)).withLog log := by
  simp only [countDisplaced, withLog, Relabelling.state, Finset.image_erase τ.rename_injective]
  rfl

theorem spillVictim_relabelled :
    spillVictim ((τ.state s).withLog log) (τ.intent victim) =
      (τ.state (spillVictim s victim)).withLog log := by
  simp only [spillVictim, withLog, Relabelling.state, Finset.image_insert, OrderedDict.rename_set]
  rfl

theorem evictVictim_relabelled {tier : Tier} :
    evictVictim ((τ.state s).withLog log) (τ.intent victim) tier =
      (τ.state (evictVictim s victim tier)).withLog log := by
  simp only [evictVictim, withLog, Relabelling.state, Finset.image_erase τ.rename_injective,
    OrderedDict.rename_set]
  rfl

/-- The decision is logged under the new name, with some explanation. -/
theorem logDecision_relabelled {action : DecisionAction} {reason reason' : String} {avoided : Bool}
    (h : SameUpToReasons (τ.state s) s') :
    SameUpToReasons (τ.state (sim.logDecision s currentStep action victim reason avoided))
      ((τ.simulator sim).logDecision s' (τ.later currentStep) action (τ.intent victim) reason' avoided) := by
  obtain ⟨log, rfl, hlog⟩ := h
  refine ⟨log ++ [(τ.simulator sim).decisionRecord (τ.later currentStep) action (τ.intent victim) reason'
    avoided], rfl, ?_⟩
  simp only [Relabelling.state, logDecision, List.map_append]
  exact List.rel_append hlog (.cons ⟨reason', rfl⟩ .nil)

theorem displaceVictim_relabelled (htiers : τ.TiersAlike order order')
    (hlog : List.Forall₂ DecisionRecord.SameDecision (τ.state s).decisionLog log) :
    SameUpToReasons (τ.state (sim.displaceVictim order s victim currentStep).1)
        ((τ.simulator sim).displaceVictim order' ((τ.state s).withLog log) (τ.intent victim)
          (τ.later currentStep)).1 ∧
      (sim.displaceVictim order s victim currentStep).2 =
        ((τ.simulator sim).displaceVictim order' ((τ.state s).withLog log) (τ.intent victim)
          (τ.later currentStep)).2 := by
  have hperm : ((order.candidates s).map τ.intent).Perm (order'.candidates ((τ.state s).withLog log)) :=
    candidates_relabelled
  have havoided : ((order'.candidates ((τ.state s).withLog log)).any fun block =>
        block.objectId ≠ (τ.intent victim).objectId && block.isDecodeCritical) =
      (order.candidates s).any fun block =>
        block.objectId ≠ victim.objectId && block.isDecodeCritical := by
    rw [← hperm.any_eq, List.any_map]
    refine congrArg _ (funext fun block => ?_)
    simp only [Function.comp_apply, Relabelling.intent_objectId, ne_eq, τ.rename_inj]
    rfl
  have htarget : targetTier order' ((τ.state s).withLog log) (τ.intent victim) = targetTier order s victim := by
    unfold targetTier
    rw [htiers]
  have hroom : ((τ.state (countDisplaced s victim)).withLog log).dramUsed + (τ.intent victim).sizeBytes ≤
        (τ.simulator sim).dramCapacityBytes ↔
      (countDisplaced s victim).dramUsed + victim.sizeBytes ≤ sim.dramCapacityBytes := by
    have hused : ((τ.state (countDisplaced s victim)).withLog log).dramUsed =
        τ.unit * (countDisplaced s victim).dramUsed := τ.dramUsed_state _
    rw [hused, Relabelling.intent_sizeBytes, ← mul_add]
    exact τ.unit_mul_le
  unfold displaceVictim
  dsimp only
  rw [htarget, havoided, countDisplaced_relabelled]
  simp only [hroom]
  split
  · rw [spillVictim_relabelled]
    exact ⟨logDecision_relabelled ⟨log, rfl, hlog⟩, rfl⟩
  · rw [evictVictim_relabelled]
    exact ⟨logDecision_relabelled ⟨log, rfl, hlog⟩, rfl⟩

/-- Both sides fail alike or end in relabelled states, up to explanations, with the same
latency. -/
def AgreeRelabelled (τ : Relabelling) :
    Except Failure (SimulatorState × ℤ) → Except Failure (SimulatorState × ℤ) → Prop :=
  Replay.Agree fun r r' => SameUpToReasons (τ.state r.1) r'.1 ∧ r.2 = r'.2

/-- What a relabelled comparison assumes of the policy and the enumeration of tiers. -/
structure Relabels (τ : Relabelling) (sim : KVMemorySimulator) (order order' : SetOrder) : Prop where
  equivariant : sim.policy.Equivariant
  independent : sim.policy.OrderIndependent
  tiers : τ.TiersAlike order order'

section Loop

variable (h : Relabels τ sim order order')
include h

theorem ensureHbmCapacityLoop_relabelled {fuel : ℕ} {added : ℤ} (hs : s.Consistent)
    (hlog : List.Forall₂ DecisionRecord.SameDecision (τ.state s).decisionLog log) :
    AgreeRelabelled τ (sim.ensureHbmCapacityLoop order currentStep fuel s added)
      ((τ.simulator sim).ensureHbmCapacityLoop order' (τ.later currentStep) fuel ((τ.state s).withLog log)
        added) := by
  induction fuel generalizing s added log with
  | zero => exact .error _
  | succ fuel ih =>
    unfold ensureHbmCapacityLoop
    rw [checkCapacity_relabelled h.equivariant h.independent hs]
    cases hcheck : sim.checkCapacity order s currentStep with
    | fits => exact .ok ⟨⟨log, rfl, hlog⟩, rfl⟩
    | allPinned =>
      refine .ok ⟨⟨log ++ [(τ.simulator sim).exhaustionRecord (τ.later currentStep)], rfl, ?_⟩, rfl⟩
      simp only [Relabelling.state, recordPinnedExhaustion, List.map_append]
      exact List.rel_append hlog (.cons ⟨_, rfl⟩ .nil)
    | noVictim => exact .ok ⟨⟨log, rfl, hlog⟩, rfl⟩
    | displace victim =>
      -- the relabelled side displaces the relabelled victim, to the same tier
      have hframe := displaceVictim_frame sim currentStep hs (victim_mem_candidates hcheck)
      have hsame : SameUpToReasons (τ.state (sim.displaceVictim order s victim currentStep).1)
            ((τ.simulator sim).displaceVictim order' ((τ.state s).withLog log) (τ.intent victim)
              (τ.later currentStep)).1 ∧
          (sim.displaceVictim order s victim currentStep).2 =
            ((τ.simulator sim).displaceVictim order' ((τ.state s).withLog log) (τ.intent victim)
              (τ.later currentStep)).2 := displaceVictim_relabelled h.tiers hlog
      obtain ⟨⟨log', heq, hlog'⟩, hlatency⟩ := hsame
      dsimp only [Relabelling.check]
      rw [heq, ← hlatency]
      exact ih (hframe.consistent hs) hlog'

theorem ensureHbmCapacity_relabelled (hs : s.Consistent)
    (hlog : List.Forall₂ DecisionRecord.SameDecision (τ.state s).decisionLog log) :
    AgreeRelabelled τ (sim.ensureHbmCapacity order s currentStep)
      ((τ.simulator sim).ensureHbmCapacity order' ((τ.state s).withLog log) (τ.later currentStep)) := by
  have hfuel : capacityFuel ((τ.state s).withLog log) = capacityFuel s :=
    congrArg (· + 1) (Finset.card_image_of_injective _ τ.rename_injective)
  unfold ensureHbmCapacity
  rw [hfuel]
  refine (ensureHbmCapacityLoop_relabelled h hs hlog).bind ?_
  rintro ⟨u, l⟩ ⟨-, -⟩ ⟨⟨log', rfl, hlog'⟩, rfl⟩
  refine .ok ⟨⟨log', ?_, hlog'⟩, rfl⟩
  exact recordUsage_relabelled

theorem moveToHbm_relabelled {block : MemoryIntent} (hs : (placeInHbm s block).Consistent)
    (hlog : List.Forall₂ DecisionRecord.SameDecision (τ.state s).decisionLog log) :
    AgreeRelabelled τ (sim.moveToHbm order s block currentStep)
      ((τ.simulator sim).moveToHbm order' ((τ.state s).withLog log) (τ.intent block)
        (τ.later currentStep)) := by
  have hplace : placeInHbm ((τ.state s).withLog log) (τ.intent block) =
      (τ.state (placeInHbm s block)).withLog log := by
    simp only [placeInHbm, withLog, Relabelling.state, Finset.image_erase τ.rename_injective,
      Finset.image_insert, OrderedDict.rename_set]
    rfl
  unfold moveToHbm
  rw [hplace]
  refine (ensureHbmCapacity_relabelled h hs hlog).bind ?_
  rintro ⟨u, l⟩ ⟨-, -⟩ ⟨⟨log', rfl, hlog'⟩, rfl⟩
  refine .ok ⟨⟨log', ?_, hlog'⟩, rfl⟩
  exact recordUsage_relabelled

end Loop

/-! ## The branches -/

section Branches

variable {e : MemoryIntentEvent}

/-- A stored block is stored under its new name. -/
theorem store_relabelled {id : String} {block : MemoryIntent} :
    ({ (τ.state s).withLog log with
      liveBlocks := ((τ.state s).withLog log).liveBlocks.set (τ.rename id) (τ.intent block) } :
        SimulatorState) =
      (τ.state { s with liveBlocks := s.liveBlocks.set id block }).withLog log := by
  simp only [withLog, Relabelling.state, OrderedDict.rename_set]

theorem storeAllocated_relabelled {intent : MemoryIntent} :
    storeAllocated ((τ.state s).withLog log) (τ.intent intent) =
      (τ.state (storeAllocated s intent)).withLog log := by
  have hused :
      ((τ.state { s with liveBlocks := s.liveBlocks.set intent.objectId intent }).withLog log).hbmUsed =
      τ.unit * ({ s with liveBlocks := s.liveBlocks.set intent.objectId intent } : SimulatorState).hbmUsed :=
    τ.hbmUsed_state _
  unfold storeAllocated
  dsimp only [Relabelling.intent_objectId]
  rw [store_relabelled, hused]
  have hsize : (if (τ.intent intent).currentTier = .hbm then (τ.intent intent).sizeBytes else 0) =
      τ.unit * if intent.currentTier = .hbm then intent.sizeBytes else 0 := by
    rw [mul_ite, mul_zero]
    rfl
  rw [hsize]
  simp only [withLog, Relabelling.state, τ.unit_mul_max, mul_add, OrderedDict.rename_set]

theorem runAllocated_relabelled (h : Relabels τ sim order order') (hs : s.Consistent)
    (hlog : List.Forall₂ DecisionRecord.SameDecision (τ.state s).decisionLog log) :
    AgreeRelabelled τ (sim.runAllocated order s e.step e.intent)
      ((τ.simulator sim).runAllocated order' ((τ.state s).withLog log) (τ.later e.step)
        (τ.intent e.intent)) := by
  have htier : (τ.intent e.intent).currentTier = e.intent.currentTier := rfl
  have hid : (τ.intent e.intent).objectId = τ.rename e.intent.objectId := rfl
  unfold runAllocated
  rw [storeAllocated_relabelled, htier, hid]
  dsimp only
  cases e.intent.currentTier with
  | hbm =>
    have hplace : ({ (τ.state (storeAllocated s e.intent)).withLog log with
          hbmBlocks := insert (τ.rename e.intent.objectId)
            ((τ.state (storeAllocated s e.intent)).withLog log).hbmBlocks } : SimulatorState) =
        (τ.state (allocatedInHbm s e)).withLog log := by
      simp only [allocatedInHbm, withLog, Relabelling.state, Finset.image_insert]
      rfl
    dsimp only
    rw [hplace]
    refine (ensureHbmCapacity_relabelled h (stored_allocatedInHbm.consistent hs) hlog).bind ?_
    rintro ⟨u, l⟩ ⟨-, -⟩ ⟨⟨log', rfl, hlog'⟩, rfl⟩
    refine .ok ⟨⟨log', ?_, hlog'⟩, rfl⟩
    exact recordUsage_relabelled
  | dram =>
    refine .ok ⟨⟨log, ?_, hlog⟩, rfl⟩
    rw [← τ.recordUsage_state]
    simp only [Relabelling.state, Finset.image_insert]
    rfl
  | cxl =>
    refine .ok ⟨⟨log, ?_, hlog⟩, rfl⟩
    exact recordUsage_relabelled
  | nvme =>
    refine .ok ⟨⟨log, ?_, hlog⟩, rfl⟩
    exact recordUsage_relabelled

theorem touch_intent (stored intent : MemoryIntent) (step : ℤ) :
    touch (τ.intent stored) (τ.intent intent) (τ.later step) = τ.intent (touch stored intent step) := rfl

theorem runAccessed_relabelled {intent : MemoryIntent} (h : Relabels τ sim order order') (hs : s.Consistent)
    (htype : e.eventType = .accessed)
    (hmerge : mergeIncoming e e.intent (s.liveBlocks.get? e.objectId) = .ok intent)
    (hlog : List.Forall₂ DecisionRecord.SameDecision (τ.state s).decisionLog log) :
    AgreeRelabelled τ (sim.runAccessed order s e.step intent)
      ((τ.simulator sim).runAccessed order' ((τ.state s).withLog log) (τ.later e.step)
        (τ.intent intent)) := by
  have hid := mergeIncoming_objectId hs hmerge
  have htouch := (touch_merged htype hmerge).2
  rw [← hid] at htouch
  have hstored :
      (((τ.state s).withLog log).liveBlocks.get? (τ.intent intent).objectId).getD (τ.intent intent) =
      τ.intent ((s.liveBlocks.get? intent.objectId).getD intent) := by
    have hget : ((τ.state s).withLog log).liveBlocks.get? (τ.rename intent.objectId) =
        (s.liveBlocks.get? intent.objectId).map τ.intent :=
      OrderedDict.get?_rename τ.rename_injective τ.intent ..
    rw [Relabelling.intent_objectId, hget, Option.getD_map]
  unfold runAccessed
  rw [hstored]
  dsimp only
  rw [touch_intent, τ.postInit_intent]
  refine Replay.Agree.bind_map fun block hblock => ?_
  rw [htouch] at hblock
  obtain ⟨rfl, hvalid⟩ := MemoryIntent.postInit_eq hblock e.intent_valid.pinned
  rw [τ.intent_objectId intent, hid]
  have hin : (τ.intent (accessedBlock s e)).objectId ∉ ((τ.state s).withLog log).hbmBlocks ↔
      (accessedBlock s e).objectId ∉ s.hbmBlocks := by
    simp [withLog, Relabelling.state]
  by_cases hout : (accessedBlock s e).objectId ∉ s.hbmBlocks
  · rw [if_pos hout, if_pos (hin.mpr hout)]
    have hmove : AgreeRelabelled τ
        (sim.moveToHbm order (recordMiss (storeBlock s e (accessedBlock s e)) (accessedBlock s e))
          (accessedBlock s e) e.step)
        ((τ.simulator sim).moveToHbm order'
          (recordMiss
            { (τ.state s).withLog log with
              liveBlocks := ((τ.state s).withLog log).liveBlocks.set (τ.rename e.objectId)
                (τ.intent (accessedBlock s e)) }
            (τ.intent (accessedBlock s e)))
          (τ.intent (accessedBlock s e)) (τ.later e.step)) := by
      rw [store_relabelled]
      exact moveToHbm_relabelled h ((stored_missedInHbm hs).consistent hs) hlog
    refine hmove.bind ?_
    rintro ⟨u, l⟩ ⟨-, -⟩ ⟨⟨log', rfl, hlog'⟩, rfl⟩
    exact .ok ⟨⟨log', rfl, hlog'⟩, rfl⟩
  · rw [if_neg hout, if_neg fun hn => hout (hin.mp hn)]
    refine .ok ⟨⟨log, ?_, hlog⟩, rfl⟩
    exact (congrArg recordUsage store_relabelled).trans recordUsage_relabelled

theorem runPrefetched_relabelled (h : Relabels τ sim order order') (hs : s.Consistent)
    (hlog : List.Forall₂ DecisionRecord.SameDecision (τ.state s).decisionLog log) :
    AgreeRelabelled τ (sim.runPrefetched order s e.step (s.liveBlocks.get? e.objectId) e.intent)
      ((τ.simulator sim).runPrefetched order' ((τ.state s).withLog log) (τ.later e.step)
        ((s.liveBlocks.get? e.objectId).map τ.intent) (τ.intent e.intent)) := by
  cases hget : s.liveBlocks.get? e.objectId with
  | none => exact .ok ⟨⟨log, rfl, hlog⟩, rfl⟩
  | some existing =>
    have hid : existing.objectId = e.intent.objectId := hs.objectId_eq _ _ hget
    have hin : (τ.intent existing).objectId ∉ ((τ.state s).withLog log).hbmBlocks ↔
        existing.objectId ∉ s.hbmBlocks := by
      simp [withLog, Relabelling.state]
    unfold runPrefetched
    dsimp only [Option.map]
    by_cases hout : existing.objectId ∉ s.hbmBlocks
    · rw [if_pos hout, if_pos (hin.mpr hout), mergeIntent, mergeIntent, τ.overwrite_intent, τ.postInit_intent]
      refine Replay.Agree.bind_map fun merged hmerged => ?_
      rw [overwrite_all hid, e.intent_valid.postInit] at hmerged
      cases hmerged
      have hasks : (τ.simulator sim).policy.shouldPrefetch (τ.intent e.intent) (τ.later e.step) =
          sim.policy.shouldPrefetch e.intent e.step := h.equivariant.shouldPrefetch τ e.intent e.step
      rw [hasks]
      by_cases haccept : sim.policy.shouldPrefetch e.intent e.step = true
      · rw [if_pos haccept, if_pos haccept]
        have hcount : ({ (τ.state s).withLog log with
              liveBlocks := ((τ.state s).withLog log).liveBlocks.set (τ.intent e.intent).objectId
                (τ.intent e.intent)
              prefetchCount := ((τ.state s).withLog log).prefetchCount + 1 } : SimulatorState) =
            (τ.state { storeBlock s e e.intent with prefetchCount := s.prefetchCount + 1 }).withLog log := by
          simp only [storeBlock, withLog, Relabelling.state, OrderedDict.rename_set]
          rfl
        have hmove : AgreeRelabelled τ
            (sim.moveToHbm order { storeBlock s e e.intent with prefetchCount := s.prefetchCount + 1 }
              e.intent e.step)
            ((τ.simulator sim).moveToHbm order'
              { (τ.state s).withLog log with
                liveBlocks := ((τ.state s).withLog log).liveBlocks.set (τ.intent e.intent).objectId
                  (τ.intent e.intent)
                prefetchCount := ((τ.state s).withLog log).prefetchCount + 1 }
              (τ.intent e.intent) (τ.later e.step)) := by
          rw [hcount]
          exact moveToHbm_relabelled h (stored_prefetchedInHbm.consistent hs) hlog
        refine hmove.bind ?_
        rintro ⟨u, l⟩ ⟨v, m⟩ ⟨hsame, rfl⟩
        exact .ok ⟨logDecision_relabelled hsame, rfl⟩
      · rw [if_neg haccept, if_neg haccept]
        exact .ok ⟨⟨log, store_relabelled, hlog⟩, rfl⟩
    · rw [if_neg hout, if_neg fun hn => hout (hin.mp hn)]
      exact .ok ⟨⟨log, rfl, hlog⟩, rfl⟩

/-- A branch that goes on with what the constructor returns. -/
theorem checked_relabelled {m : MemoryIntent}
    {f g : MemoryIntent → Except Failure (SimulatorState × ℤ)}
    (hfg : ∀ block, AgreeRelabelled τ (f block) (g (τ.intent block))) :
    AgreeRelabelled τ (m.postInit >>= f) ((τ.intent m).postInit >>= g) := by
  rw [τ.postInit_intent]
  exact Replay.Agree.bind_map fun block _ => hfg block

section Annotations

variable {intent : MemoryIntent} (existing : Option MemoryIntent)
  (hlog : List.Forall₂ DecisionRecord.SameDecision (τ.state s).decisionLog log)
include hlog

theorem runMarkedDecodeCritical_relabelled :
    AgreeRelabelled τ (runMarkedDecodeCritical s existing intent)
      (runMarkedDecodeCritical ((τ.state s).withLog log) (existing.map τ.intent) (τ.intent intent)) := by
  cases existing with
  | none => exact checked_relabelled fun block => .ok ⟨⟨log, store_relabelled, hlog⟩, rfl⟩
  | some existing => exact checked_relabelled fun block => .ok ⟨⟨log, store_relabelled, hlog⟩, rfl⟩

theorem runMarkedCold_relabelled :
    AgreeRelabelled τ (runMarkedCold s existing intent)
      (runMarkedCold ((τ.state s).withLog log) (existing.map τ.intent) (τ.intent intent)) := by
  cases existing with
  | none => exact .ok ⟨⟨log, rfl, hlog⟩, rfl⟩
  | some existing => exact checked_relabelled fun block => .ok ⟨⟨log, store_relabelled, hlog⟩, rfl⟩

theorem runCommitted_relabelled :
    AgreeRelabelled τ (runCommitted s existing intent)
      (runCommitted ((τ.state s).withLog log) (existing.map τ.intent) (τ.intent intent)) := by
  cases existing with
  | none => exact .ok ⟨⟨log, rfl, hlog⟩, rfl⟩
  | some existing => exact checked_relabelled fun block => .ok ⟨⟨log, store_relabelled, hlog⟩, rfl⟩

theorem runSpilled_relabelled :
    AgreeRelabelled τ (sim.runSpilled s existing)
      ((τ.simulator sim).runSpilled ((τ.state s).withLog log) (existing.map τ.intent)) := by
  cases existing with
  | none => exact .ok ⟨⟨log, rfl, hlog⟩, rfl⟩
  | some existing =>
    have hmoved : ∀ updated, SameUpToReasons (τ.state (storeSpilled s updated))
        (storeSpilled ((τ.state s).withLog log) (τ.intent updated)) := by
      intro updated
      refine ⟨log, ?_, hlog⟩
      simp only [storeSpilled, withLog, Relabelling.state, Finset.image_erase τ.rename_injective,
        Finset.image_insert, OrderedDict.rename_set]
      rfl
    unfold runSpilled
    dsimp only [Option.map]
    by_cases hdram : .dram ∈ existing.allowedTiers
    · have hdram' : .dram ∈ (τ.intent existing).allowedTiers := hdram
      rw [if_pos hdram, if_pos hdram']
      exact checked_relabelled fun updated => .ok ⟨hmoved updated, rfl⟩
    · have hdram' : .dram ∉ (τ.intent existing).allowedTiers := hdram
      rw [if_neg hdram, if_neg hdram']
      exact .ok ⟨⟨log, rfl, hlog⟩, rfl⟩

theorem runEvicted_relabelled :
    SameUpToReasons (τ.state (runEvicted s existing))
      (runEvicted ((τ.state s).withLog log) (existing.map τ.intent)) := by
  cases existing with
  | none => exact ⟨log, rfl, hlog⟩
  | some existing =>
    refine ⟨log, ?_, hlog⟩
    simp only [Option.map, runEvicted, storeEvicted, withLog, Relabelling.state,
      Finset.image_erase τ.rename_injective]
    rfl

theorem runFreed_relabelled :
    SameUpToReasons (τ.state (runFreed s intent)) (runFreed ((τ.state s).withLog log) (τ.intent intent)) := by
  refine ⟨log, ?_, hlog⟩
  simp only [runFreed, withLog, Relabelling.state, Finset.image_erase τ.rename_injective,
    OrderedDict.rename_erase]
  rfl

end Annotations

theorem dispatch_relabelled {intent : MemoryIntent} (h : Relabels τ sim order order') (hs : s.Consistent)
    (hmerge : mergeIncoming e e.intent (s.liveBlocks.get? e.objectId) = .ok intent)
    (hlog : List.Forall₂ DecisionRecord.SameDecision (τ.state s).decisionLog log) :
    AgreeRelabelled τ (sim.dispatch order s e (s.liveBlocks.get? e.objectId) intent)
      ((τ.simulator sim).dispatch order' ((τ.state s).withLog log) (τ.event e)
        ((s.liveBlocks.get? e.objectId).map τ.intent) (τ.intent intent)) := by
  have hall : mergeFields e.eventType = IntentField.all → intent = e.intent :=
    intent_eq_of_merge hs hmerge
  have htype' : (τ.event e).eventType = e.eventType := rfl
  unfold dispatch
  rw [htype']
  cases htype : e.eventType with
  | allocated =>
    obtain rfl := hall (by rw [htype]; rfl)
    exact runAllocated_relabelled h hs hlog
  | accessed => exact runAccessed_relabelled h hs htype hmerge hlog
  | markedDecodeCritical => exact runMarkedDecodeCritical_relabelled _ hlog
  | markedCold => exact runMarkedCold_relabelled _ hlog
  | committed => exact runCommitted_relabelled _ hlog
  | spilled => exact runSpilled_relabelled _ hlog
  | prefetched =>
    obtain rfl := hall (by rw [htype]; rfl)
    exact runPrefetched_relabelled h hs hlog
  | miss => exact .ok ⟨⟨log, rfl, hlog⟩, rfl⟩
  | evicted => exact .ok ⟨runEvicted_relabelled _ hlog, rfl⟩
  | freed => exact .ok ⟨runFreed_relabelled hlog, rfl⟩

end Branches

/-! ## Runs -/

section Runs

variable {e : MemoryIntentEvent}

/-- Both sides decay at the same events. -/
theorem decayStep_ne {step : ℤ} (hstep : 0 ≤ step) (last : ℤ) :
    τ.later step ≠ τ.decayStep last ↔ step ≠ last := by
  unfold Relabelling.decayStep
  split
  · rename_i hfirst
    subst hfirst
    unfold Relabelling.later
    omega
  · rw [ne_eq, τ.later_inj]

theorem decayRecency_relabelled {step : ℤ} (hstep : 0 ≤ step)
    (hlog : List.Forall₂ DecisionRecord.SameDecision (τ.state s).decisionLog log) :
    Replay.Agree (fun t t' => SameUpToReasons (τ.state t) t') (decayRecency s step)
      (decayRecency ((τ.state s).withLog log) (τ.later step)) := by
  have hdecay : ∀ block, decayBlock (τ.intent block) = (decayBlock block).map τ.intent := fun block =>
    τ.postInit_intent { block with recencyScore := max (block.recencyScore - 0.03) 0 }
  have hpass : ((τ.state s).withLog log).liveBlocks.traverse decayBlock =
      (s.liveBlocks.traverse decayBlock).map (OrderedDict.rename τ.rename_injective τ.intent) :=
    OrderedDict.traverse_rename τ.rename_injective τ.intent hdecay s.liveBlocks
  have hdue : τ.later step ≠ ((τ.state s).withLog log).lastDecayStep ↔ step ≠ s.lastDecayStep :=
    decayStep_ne hstep s.lastDecayStep
  unfold decayRecency
  by_cases hne : step ≠ s.lastDecayStep
  · rw [if_pos hne, if_pos (hdue.mpr hne), hpass]
    refine Replay.Agree.bind_map fun live _ => .ok ⟨log, ?_, hlog⟩
    have hlater : τ.decayStep step = τ.later step := if_neg (by omega)
    simp only [withLog, Relabelling.state, hlater]
  · rw [if_neg hne, if_neg fun hn => hne (hdue.mp hn)]
    exact .ok ⟨log, rfl, hlog⟩

theorem runEvent_relabelled (h : Relabels τ sim order order') (hs : s.Consistent)
    (hsame : SameUpToReasons (τ.state s) s') :
    Replay.Agree (fun t t' => SameUpToReasons (τ.state t) t') (sim.runEvent order s e)
      ((τ.simulator sim).runEvent order' s' (τ.event e)) := by
  obtain ⟨log, rfl, hlog⟩ := hsame
  have hget : ((τ.state s).withLog log).liveBlocks.get? (τ.intent e.intent).objectId =
      (s.liveBlocks.get? e.intent.objectId).map τ.intent :=
    OrderedDict.get?_rename τ.rename_injective τ.intent s.liveBlocks e.intent.objectId
  have hmerge : mergeIncoming (τ.event e) (τ.intent e.intent)
        ((s.liveBlocks.get? e.intent.objectId).map τ.intent) =
      (mergeIncoming e e.intent (s.liveBlocks.get? e.intent.objectId)).map τ.intent := by
    cases s.liveBlocks.get? e.intent.objectId with
    | none => rfl
    | some existing =>
      simp only [Option.map, mergeIncoming, mergeIntent, τ.overwrite_intent, τ.postInit_intent]
      rfl
  have hcopy : (τ.event e).intent.copyWith = e.intent.copyWith.map τ.intent := τ.postInit_intent e.intent
  unfold runEvent
  rw [hcopy]
  refine Replay.Agree.bind_map fun incoming hincoming => ?_
  rw [MemoryIntent.copyWith, e.intent_valid.postInit] at hincoming
  cases hincoming
  dsimp only
  rw [hget, hmerge]
  refine Replay.Agree.bind_map fun intent hintent => ?_
  refine (dispatch_relabelled h hs hintent hlog).bind ?_
  rintro ⟨u, l⟩ ⟨-, -⟩ ⟨⟨log', rfl, hlog'⟩, rfl⟩
  refine (decayRecency_relabelled e.step_nonneg hlog').bind ?_
  rintro v - ⟨log'', rfl, hlog''⟩
  exact .ok ⟨log'', rfl, hlog''⟩

theorem replay_relabelled (h : Relabels τ sim order order') (hs : s.Consistent)
    (events : List MemoryIntentEvent) :
    Replay.Agree (fun t t' => SameUpToReasons (τ.state t) t') (sim.replay order s events)
      ((τ.simulator sim).replay order' (τ.state s) (events.map τ.event)) := by
  have hmap : (τ.simulator sim).replay order' (τ.state s) (events.map τ.event) =
      Replay.run (fun s e => (τ.simulator sim).runEvent order' s (τ.event e)) (τ.state s) events :=
    List.foldlM_map
  rw [hmap]
  have hlockstep : Replay.Agree (fun t t' => t.Consistent ∧ SameUpToReasons (τ.state t) t')
      (sim.replay order s events)
      (Replay.run (fun s e => (τ.simulator sim).runEvent order' s (τ.event e)) (τ.state s) events) := by
    refine Replay.lockstep ?_ ⟨hs, .refl _⟩ (Replay.Meets.of_forall_mem fun _ _ => trivial)
    rintro s s' e ⟨hs, hsame⟩ -
    exact (runEvent_relabelled h hs hsame).imp_left fun t t' ht hsame' => ⟨runEvent_consistent hs ht, hsame'⟩
  exact hlockstep.imp_left fun _ _ _ h => h.2

theorem le_foldl_max (steps : List ℤ) (first : ℤ) : first ≤ steps.foldl max first := by
  induction steps generalizing first with
  | nil => exact le_refl first
  | cons step steps ih => exact (le_max_left first step).trans (ih (max first step))

theorem foldl_max_later (steps : List ℤ) (first : ℤ) :
    (steps.map τ.later).foldl max (τ.later first) = τ.later (steps.foldl max first) := by
  induction steps generalizing first with
  | nil => rfl
  | cons step steps ih =>
    have hmax : max (τ.later first) (τ.later step) = τ.later (max first step) :=
      max_add_add_right first step (τ.delay : ℤ)
    simp only [List.map_cons, List.foldl_cons, hmax, ih]

theorem totalSteps_relabelled (events : List MemoryIntentEvent) :
    ((events.map τ.event).map MemoryIntentEvent.step).foldl max (-1) + 1 =
      if (events.map MemoryIntentEvent.step).foldl max (-1) + 1 = 0 then 0
      else τ.later ((events.map MemoryIntentEvent.step).foldl max (-1) + 1) := by
  have hsteps : (events.map τ.event).map MemoryIntentEvent.step =
      (events.map MemoryIntentEvent.step).map τ.later := by
    rw [List.map_map, List.map_map]
    rfl
  rw [hsteps]
  cases events with
  | nil => rfl
  | cons e events =>
    have hfirst : max (-1) (τ.later e.step) = τ.later e.step :=
      max_eq_right ((τ.event e).step_nonneg.trans' (by decide))
    have hfirst' : max (-1) e.step = e.step := max_eq_right (e.step_nonneg.trans' (by decide))
    have hle := le_foldl_max (events.map MemoryIntentEvent.step) e.step
    have hstep := e.step_nonneg
    simp only [List.map_cons, List.foldl_cons, hfirst, hfirst', foldl_max_later]
    rw [if_neg (by omega)]
    unfold Relabelling.later
    ring

/-- The figures do not show the decision log. -/
theorem report_relabelled (events : List MemoryIntentEvent) :
    (τ.simulator sim).report ((τ.state s).withLog log) (events.map τ.event) =
      τ.result (sim.report s events) := by
  have hblocks : ((events.map τ.event).map MemoryIntentEvent.objectId).toFinset.card =
      (events.map MemoryIntentEvent.objectId).toFinset.card := by
    have hids : (events.map τ.event).map MemoryIntentEvent.objectId =
        (events.map MemoryIntentEvent.objectId).map τ.rename := by
      rw [List.map_map, List.map_map]
      rfl
    have himage : ((events.map MemoryIntentEvent.objectId).map τ.rename).toFinset =
        (events.map MemoryIntentEvent.objectId).toFinset.image τ.rename := by
      ext id
      simp
    rw [hids, himage, Finset.card_image_of_injective _ τ.rename_injective]
  have hhbm : ((τ.state s).withLog log).hbmUsed = τ.unit * s.hbmUsed := τ.hbmUsed_state s
  have hdram : ((τ.state s).withLog log).dramUsed = τ.unit * s.dramUsed := τ.dramUsed_state s
  have hsaved : max (τ.unit * s.peakHbmDemandBytes - τ.unit * s.actualPeakHbmUsedBytes) 0 =
      τ.unit * max (s.peakHbmDemandBytes - s.actualPeakHbmUsedBytes) 0 := by
    rw [τ.unit_mul_max, mul_sub, mul_zero]
  unfold report
  rw [hblocks, hhbm, hdram, totalSteps_relabelled]
  simp only [withLog, Relabelling.state, Relabelling.simulator, Relabelling.result, hsaved]

/-- Renaming the objects in order and the policy, measuring sizes and capacities in another unit and
starting later changes nothing else: under each of the five policies both runs fail
alike, or end in relabelled states with the relabelled figures and log the same
decisions, in other words at most. -/
theorem run_relabelled (τ : Relabelling) {name : String} (hname : policyFromName name = .ok sim.policy)
    (htiers : τ.TiersAlike order order') (hs : s.Consistent) (events : List MemoryIntentEvent) :
    Replay.Agree (fun r r' => SameUpToReasons (τ.state r.1) r'.1 ∧ r'.2 = τ.result r.2)
      (sim.run order s events) ((τ.simulator sim).run order' (τ.state s) (events.map τ.event)) := by
  have hrelabels : Relabels τ sim order order' :=
    ⟨PlacementPolicy.equivariant_of_name hname, policy_orderIndependent (policyFromName_cases hname), htiers⟩
  refine (replay_relabelled hrelabels hs events).bind ?_
  rintro t - ⟨log, rfl, hlog⟩
  rw [result_eq, result_eq, report_relabelled]
  exact .ok ⟨⟨log, rfl, hlog⟩, rfl⟩

/-- Names with a prefix, sizes that were in kilobytes, and a hundred steps later. -/
def prefixed : Relabelling where
  rename name := if name = "" then "" else "job-" ++ name
  policyName name := name
  unit := 1024
  delay := 100
  rename_strictMono a b hab := by
    have hb : b ≠ "" := by
      rintro rfl
      rw [String.lt_iff_toList_lt] at hab
      simp at hab
    simp only [if_neg hb, String.lt_iff_toList_lt] at hab ⊢
    split
    · simp
    · simpa using hab
  rename_eq_empty name := by
    split
    · simp [*]
    · simp [*]
  unit_pos := by decide

theorem run_relabelled_pressure :
    ∃ t result, (prefixed.simulator (pressured DeadlineAwarePolicy)).run SetOrder.fastestFirst
        SimulatorState.initial (pressureTrace.map prefixed.event) = .ok (t, result) ∧
      t.hbmBlocks = {"job-a", "job-b"} ∧ result.actualPeakHbmUsedBytes = 20480 ∧
      result.spillCount = 1 ∧ result.totalSteps = 104 := by
  obtain ⟨r, hrun, hcheck⟩ := Replay.exists_of_check
    (x := (pressured DeadlineAwarePolicy).run SetOrder.fastestFirst SimulatorState.initial pressureTrace)
    (p := fun r => decide (r.1.hbmBlocks = {"a", "b"} ∧ r.2.actualPeakHbmUsedBytes = 20 ∧
      r.2.spillCount = 1 ∧ r.2.totalSteps = 4)) (by decide +kernel)
  obtain ⟨hhbm, hpeak, hspills, hsteps⟩ := of_decide_eq_true hcheck
  have hname : policyFromName "deadline" = .ok (pressured DeadlineAwarePolicy).policy := rfl
  have htiers : prefixed.TiersAlike SetOrder.fastestFirst SetOrder.fastestFirst := fun _ _ _ => rfl
  obtain ⟨⟨t, result⟩, hrun', ⟨log, rfl, hlog⟩, rfl⟩ :=
    (run_relabelled prefixed hname htiers SimulatorState.consistent_initial pressureTrace).of_ok hrun
  rw [prefixed.state_initial] at hrun'
  refine ⟨_, _, hrun', ?_, ?_, hspills, ?_⟩
  · simp [withLog, Relabelling.state, hhbm, prefixed]
  · simp [Relabelling.result, hpeak, prefixed]
  · simp [Relabelling.result, Relabelling.later, hsteps, prefixed]

end Runs

end KVMemorySimulator

end KVMemoryIntent
