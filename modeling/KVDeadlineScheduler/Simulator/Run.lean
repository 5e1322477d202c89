-- SUMMARY: The KV memory simulator: the capacity loop, one branch per event type, and the replay of a trace.
import KVDeadlineScheduler.Library.Replay
import KVDeadlineScheduler.Metrics
import KVDeadlineScheduler.Simulator.Merge
import KVDeadlineScheduler.Simulator.State

/-!
# The simulator

`runEvent` is the body of the loop in `KVMemorySimulator.run`. It merges the
event into the stored block, dispatches on the event type, applies the recency
decay once per step and records the latency. Each branch returns the state and
the latency it adds to the base step.
-/

namespace KVMemoryIntent

namespace KVMemorySimulator

variable (sim : KVMemorySimulator) (order : SetOrder)

/-! ## The capacity loop -/

def decisionRecord (step : ℤ) (action : DecisionAction) (victim : MemoryIntent) (reason : String)
    (avoidedDecodeCritical : Bool) : DecisionRecord where
  step := step
  action := action
  policy := sim.policy.name
  victimObjectId := some victim.objectId
  victimPriority := some victim.priority
  victimPhase := some victim.phase
  victimRequestPriority := some victim.requestPriority
  victimDeadlineUs := victim.deadlineUs
  reason := reason
  avoidedDecodeCritical := avoidedDecodeCritical

/-- Append a decision about `victim` to the log. -/
def logDecision (s : SimulatorState) (step : ℤ) (action : DecisionAction) (victim : MemoryIntent)
    (reason : String) (avoidedDecodeCritical : Bool) : SimulatorState :=
  { s with
    decisionLog := s.decisionLog ++
      [sim.decisionRecord step action victim reason avoidedDecodeCritical] }

/-- How one pass of the loop in `_ensure_hbm_capacity` goes. -/
inductive CapacityCheck where
  | fits
  | allPinned
  | noVictim
  | displace (victim : MemoryIntent)

def checkCapacity (s : SimulatorState) (currentStep : ℤ) : CapacityCheck :=
  if s.hbmUsed ≤ sim.hbmCapacityBytes then
    .fits
  else
    let candidates := order.candidates s
    if candidates ≠ [] ∧ candidates.all (·.pinRequested) ∧ sim.policy.protectsPinned then
      .allPinned
    else
      match sim.policy.chooseVictim candidates sim.hbmCapacityBytes currentStep with
      | none => .noVictim
      | some victim => .displace victim

def exhaustionRecord (step : ℤ) : DecisionRecord where
  step := step
  action := .capacityExhausted
  policy := sim.policy.name
  victimObjectId := none
  victimPriority := none
  victimPhase := none
  victimRequestPriority := none
  victimDeadlineUs := none
  reason := "HBM remained over capacity because all resident blocks were pinned."
  avoidedDecodeCritical := false

/-- Break because every resident block is pinned. -/
def recordPinnedExhaustion (s : SimulatorState) (currentStep : ℤ) : SimulatorState :=
  { s with
    capacityExhaustionEvents := s.capacityExhaustionEvents + 1
    pinnedCapacityExhaustionEvents := s.pinnedCapacityExhaustionEvents + 1
    decisionLog := s.decisionLog ++ [sim.exhaustionRecord currentStep] }

/-- Break because the policy named no victim. -/
def recordExhaustion (s : SimulatorState) : SimulatorState :=
  { s with capacityExhaustionEvents := s.capacityExhaustionEvents + 1 }

/-- `fallback_tiers[0]`, if the victim may live outside HBM at all. -/
def targetTier (s : SimulatorState) (victim : MemoryIntent) : Option Tier :=
  ((order.allowedTiers s victim).filter (· ≠ .hbm)).head?

/-- A displaced block is counted and leaves HBM. -/
def countDisplaced (s : SimulatorState) (victim : MemoryIntent) : SimulatorState :=
  { s with
    evictionCount := s.evictionCount + 1
    decodeCriticalEvictions :=
      if victim.isDecodeCritical then s.decodeCriticalEvictions + 1 else s.decodeCriticalEvictions
    hbmBlocks := s.hbmBlocks.erase victim.objectId }

def spillVictim (s : SimulatorState) (victim : MemoryIntent) : SimulatorState :=
  { s with
    liveBlocks := s.liveBlocks.set victim.objectId { victim with currentTier := .dram }
    dramBlocks := insert victim.objectId s.dramBlocks
    spillCount := s.spillCount + 1 }

def evictVictim (s : SimulatorState) (victim : MemoryIntent) (tier : Tier) : SimulatorState :=
  { s with
    liveBlocks := s.liveBlocks.set victim.objectId { victim with currentTier := tier }
    dramBlocks := s.dramBlocks.erase victim.objectId }

/-- The rest of a pass once the victim is chosen: to DRAM when that is its first
fallback and DRAM has room for it, out of both sets otherwise. The log does not
show the tier, so it may be handed the victim as chosen. -/
def displaceVictim (s : SimulatorState) (victim : MemoryIntent) (currentStep : ℤ) :
    SimulatorState × ℤ :=
  -- explained against all candidates, before the victim leaves HBM
  let candidates := order.candidates s
  let reason := sim.policy.explainVictimChoice victim candidates currentStep
  let avoidedDecodeCritical :=
    candidates.any fun block => block.objectId ≠ victim.objectId && block.isDecodeCritical
  let target := targetTier order s victim
  let s := countDisplaced s victim
  if target = some .dram ∧ s.dramUsed + victim.sizeBytes ≤ sim.dramCapacityBytes then
    (sim.logDecision (spillVictim s victim) currentStep .spill victim reason avoidedDecodeCritical,
      sim.spillLatencyUs)
  else
    (sim.logDecision (evictVictim s victim (target.getD .nvme)) currentStep .evict victim reason
      avoidedDecodeCritical, 0)

/-- The `while` loop of `_ensure_hbm_capacity`, with a bound on its passes. -/
def ensureHbmCapacityLoop (currentStep : ℤ) :
    ℕ → SimulatorState → ℤ → Except Failure (SimulatorState × ℤ)
  | 0, _, _ => .error .divergence
  | fuel + 1, s, addedLatency =>
    match sim.checkCapacity order s currentStep with
    | .fits => .ok (s, addedLatency)
    | .allPinned => .ok (sim.recordPinnedExhaustion s currentStep, addedLatency)
    | .noVictim => .ok (recordExhaustion s, addedLatency)
    | .displace victim =>
      let (s', latency) := sim.displaceVictim order s victim currentStep
      ensureHbmCapacityLoop currentStep fuel s' (addedLatency + latency)

/-- Every pass that displaces a block takes one id out of `hbmBlocks`, so one
pass more than there are ids is enough. -/
def capacityFuel (s : SimulatorState) : ℕ := s.hbmBlocks.card + 1

def ensureHbmCapacity (s : SimulatorState) (currentStep : ℤ) :
    Except Failure (SimulatorState × ℤ) := do
  let (s', addedLatency) ← sim.ensureHbmCapacityLoop order currentStep (capacityFuel s) s 0
  pure (s'.recordUsage, addedLatency)

/-- The assignments of `_move_to_hbm` before it enforces the capacity. -/
def placeInHbm (s : SimulatorState) (block : MemoryIntent) : SimulatorState :=
  { s with
    liveBlocks := s.liveBlocks.set block.objectId { block with currentTier := .hbm }
    hbmBlocks := insert block.objectId s.hbmBlocks
    dramBlocks := s.dramBlocks.erase block.objectId }

def moveToHbm (s : SimulatorState) (block : MemoryIntent) (currentStep : ℤ) :
    Except Failure (SimulatorState × ℤ) := do
  let (s', addedLatency) ← sim.ensureHbmCapacity order (placeInHbm s block) currentStep
  pure (s'.recordUsage, addedLatency)

/-! ## The branches of `run` -/

/-- Store a new intent and count it into the HBM demand. -/
def storeAllocated (s : SimulatorState) (intent : MemoryIntent) : SimulatorState :=
  let s := { s with liveBlocks := s.liveBlocks.set intent.objectId intent }
  { s with
    peakHbmDemandBytes :=
      max s.peakHbmDemandBytes (s.hbmUsed + if intent.currentTier = .hbm then intent.sizeBytes else 0) }

def runAllocated (s : SimulatorState) (step : ℤ) (intent : MemoryIntent) :
    Except Failure (SimulatorState × ℤ) :=
  let s := storeAllocated s intent
  -- the id is added to one set and not taken from the other
  match intent.currentTier with
  | .hbm => do
    let (s', latency) ← sim.ensureHbmCapacity order
      { s with hbmBlocks := insert intent.objectId s.hbmBlocks } step
    pure (s'.recordUsage, latency)
  | .dram =>
    pure (({ s with dramBlocks := insert intent.objectId s.dramBlocks } : SimulatorState).recordUsage, 0)
  | .cxl | .nvme => pure (s.recordUsage, 0)

/-- What an access writes into the stored block. -/
def touch (stored intent : MemoryIntent) (step : ℤ) : MemoryIntent :=
  { stored with
    lastAccessStep := step
    recencyScore := max intent.recencyScore 1
    phase := intent.phase
    priority := intent.priority
    deadlineUs := intent.deadlineUs
    slackUs := intent.slackUs
    targetDecodeStep := intent.targetDecodeStep
    expectedReuseWindowTokens := intent.expectedReuseWindowTokens
    pinRequested := intent.pinRequested
    prefetchOk := intent.prefetchOk }

/-- An access that does not find its block in HBM. -/
def recordMiss (s : SimulatorState) (block : MemoryIntent) : SimulatorState :=
  { s with
    missCount := s.missCount + 1
    decodeCriticalMisses :=
      if block.isDecodeCritical then s.decodeCriticalMisses + 1 else s.decodeCriticalMisses }

/-- The source stores an unknown intent first; the access overwrites it at once. -/
def runAccessed (s : SimulatorState) (step : ℤ) (intent : MemoryIntent) :
    Except Failure (SimulatorState × ℤ) := do
  let stored := (s.liveBlocks.get? intent.objectId).getD intent
  let block ← (touch stored intent step).postInit
  let s := { s with liveBlocks := s.liveBlocks.set intent.objectId block }
  if block.objectId ∉ s.hbmBlocks then
    let (s', latency) ← sim.moveToHbm order (recordMiss s block) block step
    pure (s', sim.missPenaltyUs + latency)
  else
    -- a hit does not enforce the capacity
    pure (s.recordUsage, 0)

/-- What a decode-critical mark writes into a stored block. -/
def markDecodeCritical (existing intent : MemoryIntent) : MemoryIntent :=
  { existing with
    priority := .decodeCritical
    phase := intent.phase
    pinRequested := true
    deadlineUs := intent.deadlineUs
    slackUs := intent.slackUs
    targetDecodeStep := intent.targetDecodeStep
    expectedReuseWindowTokens := intent.expectedReuseWindowTokens
    requestPriority := intent.requestPriority
    recencyScore := intent.recencyScore }

def runMarkedDecodeCritical (s : SimulatorState) (existing : Option MemoryIntent)
    (intent : MemoryIntent) : Except Failure (SimulatorState × ℤ) := do
  let block ← match existing with
    | none => MemoryIntent.postInit { intent with priority := .decodeCritical, pinRequested := true }
    | some existing => (markDecodeCritical existing intent).postInit
  pure ({ s with liveBlocks := s.liveBlocks.set intent.objectId block }, 0)

/-- What a cold mark writes into a stored block. -/
def markCold (existing intent : MemoryIntent) : MemoryIntent :=
  { existing with
    priority := .cold
    phase := intent.phase
    deadlineUs := intent.deadlineUs
    slackUs := intent.slackUs
    compressionOk := intent.compressionOk
    recomputeOk := intent.recomputeOk
    prefetchOk := intent.prefetchOk
    recencyScore := intent.recencyScore }

def runMarkedCold (s : SimulatorState) (existing : Option MemoryIntent) (intent : MemoryIntent) :
    Except Failure (SimulatorState × ℤ) :=
  match existing with
  | none => pure (s, 0)
  | some existing => do
    let block ← (markCold existing intent).postInit
    pure ({ s with liveBlocks := s.liveBlocks.set intent.objectId block }, 0)

def runCommitted (s : SimulatorState) (existing : Option MemoryIntent) (intent : MemoryIntent) :
    Except Failure (SimulatorState × ℤ) :=
  match existing with
  | none => pure (s, 0)
  | some existing => do
    let block ← MemoryIntent.postInit { existing with isCommitted := true, isDraft := false }
    pure ({ s with liveBlocks := s.liveBlocks.set intent.objectId block }, 0)

/-- A block moved to DRAM by an explicit event, whatever room DRAM has. -/
def storeSpilled (s : SimulatorState) (updated : MemoryIntent) : SimulatorState :=
  { s with
    hbmBlocks := s.hbmBlocks.erase updated.objectId
    dramBlocks := insert updated.objectId s.dramBlocks
    liveBlocks := s.liveBlocks.set updated.objectId updated
    spillCount := s.spillCount + 1 }

def runSpilled (s : SimulatorState) (existing : Option MemoryIntent) :
    Except Failure (SimulatorState × ℤ) :=
  match existing with
  | none => pure (s, 0)
  | some existing =>
    if .dram ∈ existing.allowedTiers then do
      let updated ← MemoryIntent.postInit { existing with currentTier := .dram }
      pure (storeSpilled s updated, sim.spillLatencyUs)
    else
      pure (s, 0)

def prefetchReason (block : MemoryIntent) : String :=
  s!"Prefetched {block.objectId} because it is urgent " ++ s!"and prefetchable under {sim.policy.name}."

/-- The merged block is stored before the policy is asked. -/
def runPrefetched (s : SimulatorState) (step : ℤ) (existing : Option MemoryIntent)
    (intent : MemoryIntent) : Except Failure (SimulatorState × ℤ) :=
  match existing with
  | none => pure (s, 0)
  | some block =>
    if block.objectId ∉ s.hbmBlocks then do
      let mergedBlock ← mergeIntent block intent IntentField.all
      let s := { s with liveBlocks := s.liveBlocks.set mergedBlock.objectId mergedBlock }
      if sim.policy.shouldPrefetch mergedBlock step then
        let (s', latency) ← sim.moveToHbm order { s with prefetchCount := s.prefetchCount + 1 }
          mergedBlock step
        pure (sim.logDecision s' step .prefetch mergedBlock (sim.prefetchReason mergedBlock) false,
          sim.prefetchLatencyUs + latency)
      else
        pure (s, 0)
    else
      pure (s, 0)

def storeEvicted (s : SimulatorState) (existing : MemoryIntent) : SimulatorState :=
  -- the block stays live, under the tier it had
  { s with
    hbmBlocks := s.hbmBlocks.erase existing.objectId
    dramBlocks := s.dramBlocks.erase existing.objectId
    decodeCriticalEvictions :=
      if existing.isDecodeCritical then s.decodeCriticalEvictions + 1 else s.decodeCriticalEvictions
    evictionCount := s.evictionCount + 1 }

def runEvicted (s : SimulatorState) (existing : Option MemoryIntent) : SimulatorState :=
  match existing with
  | none => s
  | some existing => storeEvicted s existing

def runFreed (s : SimulatorState) (intent : MemoryIntent) : SimulatorState :=
  { s with
    liveBlocks := s.liveBlocks.erase intent.objectId
    hbmBlocks := s.hbmBlocks.erase intent.objectId
    dramBlocks := s.dramBlocks.erase intent.objectId }

def dispatch (s : SimulatorState) (event : MemoryIntentEvent) (existing : Option MemoryIntent)
    (intent : MemoryIntent) : Except Failure (SimulatorState × ℤ) :=
  match event.eventType with
  | .allocated => sim.runAllocated order s event.step intent
  | .accessed => sim.runAccessed order s event.step intent
  | .markedDecodeCritical => runMarkedDecodeCritical s existing intent
  | .markedCold => runMarkedCold s existing intent
  | .committed => runCommitted s existing intent
  | .spilled => sim.runSpilled s existing
  | .prefetched => sim.runPrefetched order s event.step existing intent
  | .evicted => pure (runEvicted s existing, 0)
  | .freed => pure (runFreed s intent, 0)
  | .miss => pure (s, 0)

/-! ## The loop over events -/

/-- One block's share of a decay pass. -/
def decayBlock (block : MemoryIntent) : Except Failure MemoryIntent :=
  MemoryIntent.postInit { block with recencyScore := max (block.recencyScore - 0.03) 0 }

/-- A decay pass over all live blocks, once per change of the step. -/
def decayRecency (s : SimulatorState) (step : ℤ) : Except Failure SimulatorState :=
  if step ≠ s.lastDecayStep then do
    let liveBlocks ← s.liveBlocks.traverse decayBlock
    pure { s with liveBlocks := liveBlocks, lastDecayStep := step }
  else
    pure s

/-- The intent the branches work with: merged into the stored block, if any. -/
def mergeIncoming (event : MemoryIntentEvent) (intent : MemoryIntent) :
    Option MemoryIntent → Except Failure MemoryIntent
  | none => pure intent
  | some existing => mergeIntent existing intent (mergeFields event.eventType)

def runEvent (s : SimulatorState) (event : MemoryIntentEvent) : Except Failure SimulatorState := do
  -- the event's intent is copied, so that the trace is not written to
  let intent ← event.intent.copyWith
  let existing := s.liveBlocks.get? intent.objectId
  let intent ← mergeIncoming event intent existing
  let (s, latency) ← sim.dispatch order s event existing intent
  let s ← decayRecency s event.step
  pure { s with latencies := s.latencies ++ [sim.baseStepLatencyUs + latency] }

/-- The state after a trace. -/
def replay (s : SimulatorState) (events : List MemoryIntentEvent) : Except Failure SimulatorState :=
  Replay.run (sim.runEvent order) s events

end KVMemorySimulator

/-! ## Results -/

structure SimulationResult where
  policyName : String
  totalBlocks : ℕ
  totalSteps : ℤ
  hbmCapacityBytes : ℤ
  dramCapacityBytes : ℤ
  peakHbmDemandBytes : ℤ
  actualPeakHbmUsedBytes : ℤ
  hbmBytesSaved : ℤ
  capacityExhaustionEvents : ℕ
  pinnedCapacityExhaustionEvents : ℕ
  spillCount : ℕ
  prefetchCount : ℕ
  missCount : ℕ
  evictionCount : ℕ
  totalLatencyUs : ℤ
  p50LatencyUs : ℚ
  p95LatencyUs : ℚ
  p99LatencyUs : ℚ
  decodeCriticalMisses : ℕ
  decodeCriticalMissRate : ℚ
  decodeCriticalEvictions : ℕ
  finalHbmUsedBytes : ℤ
  finalDramUsedBytes : ℤ
  deriving DecidableEq

namespace KVMemorySimulator

variable (sim : KVMemorySimulator) (order : SetOrder)

def result (s : SimulatorState) (events : List MemoryIntentEvent) :
    Except Failure SimulationResult := do
  let totalBlocks := (events.map MemoryIntentEvent.objectId).toFinset.card
  let latencies := s.latencies.map (fun l => (l : ℚ))
  let p50 ← percentile latencies 50
  let p95 ← percentile latencies 95
  let p99 ← percentile latencies 99
  pure
    { policyName := sim.policy.name
      totalBlocks := totalBlocks
      totalSteps := (events.map MemoryIntentEvent.step).foldl max (-1) + 1
      hbmCapacityBytes := sim.hbmCapacityBytes
      dramCapacityBytes := sim.dramCapacityBytes
      peakHbmDemandBytes := s.peakHbmDemandBytes
      actualPeakHbmUsedBytes := s.actualPeakHbmUsedBytes
      hbmBytesSaved := max (s.peakHbmDemandBytes - s.actualPeakHbmUsedBytes) 0
      capacityExhaustionEvents := s.capacityExhaustionEvents
      pinnedCapacityExhaustionEvents := s.pinnedCapacityExhaustionEvents
      spillCount := s.spillCount
      prefetchCount := s.prefetchCount
      missCount := s.missCount
      evictionCount := s.evictionCount
      totalLatencyUs := s.latencies.sum
      p50LatencyUs := p50
      p95LatencyUs := p95
      p99LatencyUs := p99
      decodeCriticalMisses := s.decodeCriticalMisses
      decodeCriticalMissRate := min ((s.decodeCriticalMisses : ℚ) / max totalBlocks 1) 1
      decodeCriticalEvictions := s.decodeCriticalEvictions
      finalHbmUsedBytes := s.hbmUsed
      finalDramUsedBytes := s.dramUsed }

/-- `KVMemorySimulator.run`, from any state of the simulator. -/
def run (s : SimulatorState) (events : List MemoryIntentEvent) :
    Except Failure (SimulatorState × SimulationResult) := do
  let s' ← sim.replay order s events
  let result ← sim.result s' events
  pure (s', result)

end KVMemorySimulator

end KVMemoryIntent
