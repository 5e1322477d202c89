-- SUMMARY: The generator of synthetic workloads: profiles, the allocation of blocks request by request, and the decode rounds.
import Mathlib.Data.List.DropRight
import KVDeadlineScheduler.Events
import KVDeadlineScheduler.Library.Double
import KVDeadlineScheduler.Library.Replay

/-!
# Synthetic workloads

All requests allocate their blocks first. Then they decode in turn: a round marks
the last blocks of a request as decode-critical and accesses them, and ages one
of the others. The random draws are a sequence of numbers, one for each request
that is not of high priority. A float is rounded where it becomes an `int`;
recency scores are exact.
-/

namespace KVMemoryIntent

/-! ## Profiles -/

inductive WorkloadProfile where
  | balanced
  | deadlinePressure
  | ragMixedPriority
  | speculativeDecode
  | longContextExtreme
  deriving DecidableEq, Repr

def WorkloadProfile.value : WorkloadProfile → String
  | .balanced => "balanced"
  | .deadlinePressure => "deadline_pressure"
  | .ragMixedPriority => "rag_mixed_priority"
  | .speculativeDecode => "speculative_decode"
  | .longContextExtreme => "long_context_extreme"

/-- The settings as decimals, with the defaults of `_profile_settings`. -/
structure ProfileSettings where
  longContextFraction : ℚ := 3 / 10
  draftFraction : ℚ := 2 / 10
  highPriorityFraction : ℚ := 2 / 10
  deadlineRatio : ℚ := 25 / 100
  reuseScale : ℚ := 1

def profileSettings : WorkloadProfile → ProfileSettings
  | .balanced => {}
  | .deadlinePressure =>
    { longContextFraction := 4 / 10
      highPriorityFraction := 45 / 100
      deadlineRatio := 65 / 100
      reuseScale := 7 / 10 }
  | .ragMixedPriority =>
    { longContextFraction := 5 / 10
      highPriorityFraction := 15 / 100
      deadlineRatio := 2 / 10
      reuseScale := 16 / 10 }
  | .speculativeDecode =>
    { draftFraction := 45 / 100
      deadlineRatio := 3 / 10
      reuseScale := 9 / 10 }
  | .longContextExtreme =>
    { longContextFraction := 75 / 100
      highPriorityFraction := 1 / 10
      deadlineRatio := 15 / 100
      reuseScale := 28 / 10 }

/-- `int(n * factor)` of doubles that are not negative. -/
def scaled (n : ℤ) (factor : ℚ) : ℤ :=
  ⌊Double.nearest (Double.nearest n * Double.nearest factor)⌋

/-! ## Names -/

/-- `f"req-{request_index:03d}"`. -/
def syntheticRequestId (requestIndex : ℕ) : String :=
  "req-" ++ String.ofList ((toString requestIndex).toList.leftpad 3 '0')

def syntheticObjectId (requestId : String) (blockId : ℕ) : String := s!"{requestId}:block:{blockId}"

inductive WorkloadFailure where
  | refused (failure : Failure)
  | zeroDivisionError
  deriving DecidableEq

/-- `int(object_id.rsplit(":", 1)[-1])`, where the last part has digits alone. -/
def blockIdOf (objectId : String) : Except WorkloadFailure ℤ :=
  let digits := objectId.toList.rtakeWhile (· ≠ ':')
  if digits ≠ [] ∧ digits.all Char.isDigit then
    .ok (Nat.ofDigitChars 10 digits 0)
  else
    .error (.refused (.valueError
      ("invalid literal for int() with base 10: '" ++ String.ofList digits ++ "'")))

/-! ## The locals of the generator -/

structure SyntheticRequestState where
  requestId : String
  blockIds : List String
  requestPriority : ℤ
  isHigh : Bool
  hotSpan : ℕ

/-- `block_ids[-hot_span:]`. -/
def SyntheticRequestState.currentHot (active : SyntheticRequestState) : List String :=
  active.blockIds.drop (active.blockIds.length - active.hotSpan)

/-- `block_ids[:-hot_span]`. -/
def SyntheticRequestState.coldCandidates (active : SyntheticRequestState) : List String :=
  active.blockIds.take (active.blockIds.length - active.hotSpan)

structure SyntheticState where
  events : List MemoryIntentEvent := []
  requests : List SyntheticRequestState := []
  step : ℤ := 0
  drawn : ℕ := 0

def newIntent (fields : MemoryIntent) : Except WorkloadFailure ValidIntent :=
  fields.validated.mapError .refused

/-- Append an event at the current step and go on to the next. -/
def SyntheticState.emit (st : SyntheticState) (eventType : EventType) (intent : ValidIntent)
    (reason : String) : Except WorkloadFailure SyntheticState := do
  let event ← (MemoryIntentEvent.postInit st.step eventType intent (some reason) none).mapError .refused
  .ok { st with
    events := st.events ++ [event]
    step := st.step + 1 }

/-! ## Allocations -/

/-- What the loop over requests has worked out before it allocates blocks. -/
structure RequestPlan where
  requestId : String
  requestPriority : ℤ
  isHigh : Bool
  blockCount : ℤ
  hotSpan : ℕ

section Generator

variable (profile : WorkloadProfile) (blockSizeBytes : ℤ)

def baseDeadline (isHigh isHotTail : Bool) : Option ℤ :=
  if profile = .deadlinePressure ∧ isHotTail then some 700
  else if profile = .ragMixedPriority ∧ ¬isHigh then some 15000
  else if profile = .longContextExtreme ∧ ¬isHotTail then none
  else if isHigh ∧ isHotTail then some 900
  else some 10000

def allocationIntent (plan : RequestPlan) (step : ℤ) (blockId : ℕ) : MemoryIntent :=
  let settings := profileSettings profile
  let isHotTail := decide (plan.blockCount - plan.hotSpan ≤ blockId)
  let deadline := baseDeadline profile plan.isHigh isHotTail
  { objectId := syntheticObjectId plan.requestId blockId
    requestId := plan.requestId
    blockId := blockId
    objectType := .kvCache
    phase := .prefill
    priority := if isHotTail then .hot else .warm
    allowedTiers := {.hbm, .dram}
    currentTier := .hbm
    sizeBytes := blockSizeBytes
    requestPriority := plan.requestPriority
    recencyScore := if isHotTail then 7 / 10 else 15 / 100
    deadlineUs := deadline
    slackUs := deadline.map fun d => d - 200
    arrivalStep := some step
    targetDecodeStep := some (step + plan.blockCount + max 2 (blockId / 2 : ℕ))
    expectedReuseWindowTokens := some (if isHotTail then 2 else scaled (24 + blockId) settings.reuseScale)
    recomputeCostUs := some (if isHotTail then 5000 else 200)
    spillCostUs := some 200
    compressionOk := !isHotTail
    recomputeOk := !isHotTail
    prefetchOk := !isHotTail
    pinRequested := false
    isDraft :=
      (blockId : ℤ) < max 1 (scaled plan.blockCount settings.draftFraction) ∧
        (profile = .speculativeDecode ∨ profile = .balanced) ∧ ¬plan.isHigh
    isCommitted := false
    createdStep := step
    lastAccessStep := step }

/-- One round of the loop over the blocks of a request. The ids so far come first. -/
def allocateSyntheticBlock (plan : RequestPlan) (locals : List String × SyntheticState) (blockId : ℕ) :
    Except WorkloadFailure (List String × SyntheticState) := do
  let (blockIds, st) := locals
  let intent ← newIntent (allocationIntent profile blockSizeBytes plan st.step blockId)
  let st ← st.emit .allocated intent ("initial kv allocation (" ++ profile.value ++ ")")
  .ok (blockIds ++ [intent.1.objectId], st)

/-- One round of the loop over requests. -/
def addRequest (draws : ℕ → { draw : ℤ // 10 ≤ draw ∧ draw ≤ 60 }) (numRequests blocksPerRequest : ℤ)
    (st : SyntheticState) (requestIndex : ℕ) : Except WorkloadFailure SyntheticState := do
  let settings := profileSettings profile
  let isHigh := decide ((requestIndex : ℤ) < max 1 (scaled numRequests settings.highPriorityFraction))
  let isLong := decide ((requestIndex : ℤ) < max 1 (scaled numRequests settings.longContextFraction))
  let plan : RequestPlan :=
    { requestId := syntheticRequestId requestIndex
      requestPriority := if isHigh then 92 else draws st.drawn
      isHigh := isHigh
      blockCount :=
        blocksPerRequest * (if profile = .longContextExtreme ∧ isLong then 3 else if isLong then 2 else 1)
      hotSpan := if isHigh ∨ profile = .deadlinePressure then 3 else 2 }
  let (blockIds, allocated) ← (List.range plan.blockCount.toNat).foldlM
    (allocateSyntheticBlock profile blockSizeBytes plan)
    ([], { st with drawn := if isHigh then st.drawn else st.drawn + 1 })
  .ok { allocated with
    requests := allocated.requests ++
      [{ requestId := plan.requestId
         blockIds := blockIds
         requestPriority := plan.requestPriority
         isHigh := isHigh
         hotSpan := plan.hotSpan }] }

/-! ## Decode rounds -/

def decodeIntent (active : SyntheticRequestState) (step : ℤ) (objectId : String) (blockId : ℤ)
    (offset : ℕ) : MemoryIntent where
  objectId := objectId
  requestId := active.requestId
  blockId := blockId
  objectType := .kvCache
  phase := .decode
  priority := .decodeCritical
  allowedTiers := {.hbm, .dram}
  currentTier := .hbm
  sizeBytes := blockSizeBytes
  requestPriority := active.requestPriority
  recencyScore := 1 - offset * (1 / 10)
  deadlineUs := some (if profile = .deadlinePressure ∨ active.isHigh then 700 else 2500)
  slackUs := some (if profile = .deadlinePressure then 250 else if active.isHigh then 1500 else 3500)
  arrivalStep := some 0
  targetDecodeStep := some (step + offset)
  expectedReuseWindowTokens := some (1 + offset)
  recomputeCostUs := some (if active.isHigh ∨ profile = .deadlinePressure then 6000 else 2000)
  spillCostUs := some 250
  prefetchOk := false
  pinRequested := true
  isDraft := false
  isCommitted := true
  createdStep := 0
  lastAccessStep := step

/-- One round of the loop over the hot blocks. -/
def decodeHotBlock (active : SyntheticRequestState) (st : SyntheticState) (entry : String × ℕ) :
    Except WorkloadFailure SyntheticState := do
  let (objectId, offset) := entry
  let blockId ← blockIdOf objectId
  let intent ← newIntent (decodeIntent profile blockSizeBytes active st.step objectId blockId offset)
  let st ← st.emit .markedDecodeCritical intent "decode hot set"
  st.emit .accessed intent "token decode access"

def staleIntentFields (active : SyntheticRequestState) (decodeStep : ℕ) (step : ℤ) (staleId : String)
    (blockId : ℤ) : MemoryIntent :=
  let settings := profileSettings profile
  { objectId := staleId
    requestId := active.requestId
    blockId := blockId
    objectType := .kvCache
    phase := if decodeStep % 7 = 0 then .done else .verify
    priority := .cold
    allowedTiers := {.hbm, .dram}
    currentTier := .hbm
    sizeBytes := blockSizeBytes
    requestPriority := max (active.requestPriority - if profile = .ragMixedPriority then 45 else 20) 0
    recencyScore := if profile ≠ .longContextExtreme then 0 else 5 / 100
    deadlineUs :=
      if profile ≠ .deadlinePressure then none
      else some ⌊Double.nearest
        (6000 / max (Double.nearest settings.deadlineRatio) (Double.nearest (1 / 10)))⌋
    slackUs := none
    arrivalStep := some 0
    targetDecodeStep := some (step + 512)
    expectedReuseWindowTokens := some (scaled 48 settings.reuseScale)
    recomputeCostUs := some 80
    spillCostUs := some 100
    compressionOk := true
    recomputeOk := true
    prefetchOk := true
    pinRequested := false
    isDraft := profile = .speculativeDecode ∧ decodeStep % 2 = 0
    isCommitted := false
    createdStep := 0
    lastAccessStep := max (step - 20) 0 }

/-- `if stale_intent.is_draft and decode_step % 5 == 0`. -/
def commitStale (decodeStep : ℕ) (staleIntent : ValidIntent) (st : SyntheticState) :
    Except WorkloadFailure SyntheticState :=
  if staleIntent.1.isDraft ∧ decodeStep % 5 = 0 then do
    let commitIntent ← newIntent { staleIntent.1 with isCommitted := true, isDraft := false }
    st.emit .committed commitIntent "draft accepted"
  else
    .ok st

/-- `if decode_step % 5 == 0`. -/
def prefetchStale (active : SyntheticRequestState) (decodeStep : ℕ) (staleIntent : ValidIntent)
    (st : SyntheticState) : Except WorkloadFailure SyntheticState :=
  if decodeStep % 5 = 0 then do
    let prefetchTarget ← newIntent
      { staleIntent.1 with
        currentTier := .dram
        prefetchOk := true
        priority := if active.isHigh then .hot else .warm
        deadlineUs := if active.isHigh then some 4000 else none
        slackUs := if active.isHigh then some 1200 else none
        expectedReuseWindowTokens := some (if profile ≠ .longContextExtreme then 4 else 12) }
    st.emit .prefetched prefetchTarget "anticipated reuse"
  else
    .ok st

/-- `if cold_candidates`: without candidates there is none to look up. -/
def ageColdBlock (active : SyntheticRequestState) (decodeStep : ℕ) (st : SyntheticState) :
    Except WorkloadFailure SyntheticState :=
  match active.coldCandidates[decodeStep % active.coldCandidates.length]? with
  | none => .ok st
  | some staleId => do
    let blockId ← blockIdOf staleId
    let staleIntent ← newIntent
      (staleIntentFields profile blockSizeBytes active decodeStep st.step staleId blockId)
    let st ← st.emit .markedCold staleIntent "aging old kv block"
    let st ← commitStale decodeStep staleIntent st
    prefetchStale profile active decodeStep staleIntent st

/-- One round of the loop over decode steps. Without requests there is no remainder. -/
def decodeRound (st : SyntheticState) (decodeStep : ℕ) : Except WorkloadFailure SyntheticState :=
  match st.requests[decodeStep % st.requests.length]? with
  | none => .error .zeroDivisionError
  | some active => do
    let st ← active.currentHot.zipIdx.foldlM (decodeHotBlock profile blockSizeBytes active) st
    ageColdBlock profile blockSizeBytes active decodeStep st

end Generator

/-- The fractions given are not used: those of the profile replace them. -/
def generateSyntheticKvWorkload (numRequests blocksPerRequest blockSizeBytes decodeSteps : ℤ)
    (_longContextFraction _draftFraction _highPriorityFraction : ℚ)
    (draws : ℕ → { draw : ℤ // 10 ≤ draw ∧ draw ≤ 60 }) (profile : WorkloadProfile) :
    Except WorkloadFailure (List MemoryIntentEvent) := do
  let st ← (List.range numRequests.toNat).foldlM
    (addRequest profile blockSizeBytes draws numRequests blocksPerRequest) {}
  let st ← (List.range decodeSteps.toNat).foldlM (decodeRound profile blockSizeBytes) st
  .ok st.events

end KVMemoryIntent
