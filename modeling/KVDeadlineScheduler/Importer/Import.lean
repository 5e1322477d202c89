-- SUMMARY: The import of a request trace: the block plan of a request, the intents of its blocks, and the four loops that emit them.
import Mathlib.Data.Rat.Floor
import KVDeadlineScheduler.Events
import KVDeadlineScheduler.Importer.Estimator
import KVDeadlineScheduler.Importer.Requests
import KVDeadlineScheduler.Library.DoubleRange

/-!
# Importing request traces

Every request becomes a run of approximate events over its blocks. The block plan
divides numbers of bytes and of tokens as the source does, with one rounding to a double
and an error where the quotient is too large for one.
-/

namespace KVMemoryIntent

/-! ## The block plan -/

/-- `ceil(a / b)`, where the quotient is a float. -/
def ceilDiv (a b : ℤ) : Except Failure ℤ :=
  (Double.divide a b).elim (.error (.overflowError "integer division result too large for a float"))
    fun quotient => .ok ⌈quotient⌉

/-- The blocks of a request: how many, of which size, and how many at the end are
hot. -/
structure BlockPlan where
  numBlocks : ℤ
  logicalBlockSize : ℤ
  decodeHotBlocks : ℤ
  deriving DecidableEq

def cappedBlocks (totalKvBytes blockSizeBytes : ℤ) (maxBlocksPerRequest : Option ℤ) :
    Except Failure (ℤ × ℤ) := do
  let numBlocks := max 1 (← ceilDiv totalKvBytes blockSizeBytes)
  match maxBlocksPerRequest with
  | none => .ok (numBlocks, blockSizeBytes)
  | some m =>
    if numBlocks > m then do
      let logicalBlockSize ← ceilDiv totalKvBytes m
      .ok (m, logicalBlockSize)
    else
      .ok (numBlocks, blockSizeBytes)

def blockPlan (totalKvBytes generatedTokens blockSizeBytes decodeBlockTokens : ℤ)
    (maxBlocksPerRequest : Option ℤ) : Except Failure BlockPlan := do
  let (numBlocks, logicalBlockSize) ← cappedBlocks totalKvBytes blockSizeBytes maxBlocksPerRequest
  let decodeBlocks ← ceilDiv (max generatedTokens 1) decodeBlockTokens
  .ok
    { numBlocks := numBlocks
      logicalBlockSize := logicalBlockSize
      decodeHotBlocks := min (max 1 decodeBlocks) numBlocks }

/-! ## Intents -/

/-- `x or y`, where a missing number and 0 both give way to `y`. -/
def orElse (x : Option ℤ) (y : ℤ) : ℤ :=
  match x with
  | none => y
  | some x => if x = 0 then y else x

/-- `int(x)`, which rounds towards 0. -/
def truncate (x : ℚ) : ℤ := x.num.tdiv x.den

def blockObjectId (record : RequestTraceRecord) (blockId : ℤ) : String :=
  record.requestId ++ ":import:" ++ toString blockId

section Intents

variable (record : RequestTraceRecord) (plan : BlockPlan) (currentStep blockId : ℤ)

def isHotTail : Bool := blockId ≥ plan.numBlocks - plan.decodeHotBlocks

def ageFraction : ℚ := (blockId : ℚ) / (max (plan.numBlocks - 1) 1 : ℤ)

def allocIntent : MemoryIntent where
  objectId := blockObjectId record blockId
  requestId := record.requestId
  blockId := blockId
  objectType := .kvCache
  phase := .prefill
  priority :=
    if isHotTail plan blockId then .hot else if ageFraction plan blockId > 1 / 2 then .warm else .cold
  allowedTiers := {.hbm, .dram}
  currentTier := .hbm
  sizeBytes := plan.logicalBlockSize
  requestPriority :=
    if isHotTail plan blockId then record.requestPriority else max (record.requestPriority - 15) 0
  recencyScore :=
    if isHotTail plan blockId then 7 / 10 else max 0 (6 / 10 - ageFraction plan blockId)
  deadlineUs := if isHotTail plan blockId then record.deadlineMs.map (· * 1000) else none
  slackUs := if isHotTail plan blockId then record.deadlineMs.map (· * 1000 - 5000) else none
  arrivalStep := some record.arrivalMs
  targetDecodeStep := some (orElse record.startMs record.arrivalMs + blockId)
  expectedReuseWindowTokens :=
    some (if ¬isHotTail plan blockId then max 1 (truncate ((1 - ageFraction plan blockId) * 512)) else 2)
  recomputeCostUs := some (if isHotTail plan blockId then 5000 else 200)
  spillCostUs := some 200
  compressionOk := !isHotTail plan blockId
  recomputeOk := !isHotTail plan blockId
  prefetchOk := !isHotTail plan blockId
  pinRequested := false
  isDraft := false
  isCommitted := true
  createdStep := currentStep
  lastAccessStep := currentStep

/-- The intent of the hot block at `offset` from the first hot one. -/
def hotIntent (offset : ℕ) : MemoryIntent where
  objectId := blockObjectId record blockId
  requestId := record.requestId
  blockId := blockId
  objectType := .kvCache
  phase := .decode
  priority := .decodeCritical
  allowedTiers := {.hbm, .dram}
  currentTier := .hbm
  sizeBytes := plan.logicalBlockSize
  requestPriority := record.requestPriority
  recencyScore := max (8 / 10) (1 - offset * (1 / 10))
  deadlineUs := record.deadlineMs.map (· * 1000)
  slackUs := record.deadlineMs.map (· * 1000 - offset * 2000)
  arrivalStep := some record.arrivalMs
  targetDecodeStep := some (orElse record.startMs record.arrivalMs + offset)
  expectedReuseWindowTokens := some (1 + offset)
  recomputeCostUs := some 6000
  spillCostUs := some 250
  compressionOk := false
  recomputeOk := false
  prefetchOk := true
  pinRequested := true
  isDraft := false
  isCommitted := true
  createdStep := currentStep
  lastAccessStep := currentStep

def coldIntent : MemoryIntent where
  objectId := blockObjectId record blockId
  requestId := record.requestId
  blockId := blockId
  objectType := .kvCache
  phase := .idle
  priority := .cold
  allowedTiers := {.hbm, .dram}
  currentTier := .hbm
  sizeBytes := plan.logicalBlockSize
  requestPriority := max (record.requestPriority - 20) 0
  recencyScore := 0
  deadlineUs := none
  slackUs := none
  arrivalStep := some record.arrivalMs
  targetDecodeStep := some (orElse record.endMs record.arrivalMs + 1000)
  expectedReuseWindowTokens := some (256 + blockId)
  recomputeCostUs := some 100
  spillCostUs := some 100
  compressionOk := true
  recomputeOk := true
  prefetchOk := true
  pinRequested := false
  isDraft := false
  isCommitted := true
  createdStep := currentStep
  lastAccessStep := max (currentStep - 5) 0

def freedIntent : MemoryIntent where
  objectId := blockObjectId record blockId
  requestId := record.requestId
  blockId := blockId
  objectType := .kvCache
  phase := .done
  priority := .cold
  allowedTiers := {.hbm, .dram}
  currentTier := .dram
  sizeBytes := plan.logicalBlockSize
  requestPriority := record.requestPriority
  recencyScore := 0
  deadlineUs := none
  slackUs := none
  arrivalStep := some record.arrivalMs
  targetDecodeStep := none
  expectedReuseWindowTokens := none
  recomputeCostUs := some 0
  spillCostUs := some 0
  compressionOk := true
  recomputeOk := false
  prefetchOk := false
  pinRequested := false
  isDraft := false
  isCommitted := true
  createdStep := currentStep
  lastAccessStep := currentStep

end Intents

/-! ## Loops -/

/-- The locals of the import that outlive one request. -/
structure ImportState where
  events : List MemoryIntentEvent := []
  currentStep : ℤ := 0

def ImportState.append (st : ImportState) (eventType : EventType) (intent : { m : MemoryIntent // m.Valid })
    (reason : String) : Except Failure ImportState := do
  let event ← MemoryIntentEvent.postInit st.currentStep eventType intent (some reason) none
  .ok { events := st.events ++ [event], currentStep := st.currentStep + 1 }

section Loops

variable (record : RequestTraceRecord) (plan : BlockPlan)

def allocateBlock (st : ImportState) (blockId : ℕ) : Except Failure ImportState := do
  let allocIntent ← (allocIntent record plan st.currentStep blockId).validated
  st.append .allocated allocIntent "approximate allocation imported from external request trace"

/-- The block is marked, and then accessed with a copy of the same intent. -/
def accessHotBlock (st : ImportState) (offset : ℕ) : Except Failure ImportState := do
  let blockId := plan.numBlocks - plan.decodeHotBlocks + offset
  let hotIntent ← (hotIntent record plan st.currentStep blockId offset).validated
  let st ← st.append .markedDecodeCritical hotIntent
    "approximate decode-critical block reconstructed from external request trace"
  let accessed ← { hotIntent.val with lastAccessStep := st.currentStep }.validated
  st.append .accessed accessed "approximate decode access reconstructed from external request trace"

def markColdBlock (st : ImportState) (blockId : ℕ) : Except Failure ImportState := do
  let coldIntent ← (coldIntent record plan st.currentStep blockId).validated
  st.append .markedCold coldIntent "approximate cold block reconstructed from external request trace"

def freeBlock (st : ImportState) (blockId : ℕ) : Except Failure ImportState := do
  let freedIntent ← (freedIntent record plan st.currentStep blockId).validated
  st.append .freed freedIntent "approximate free reconstructed from external request trace"

/-- The four loops over the blocks of a request. -/
def importBlocks (st : ImportState) : Except Failure ImportState := do
  let st ← (List.range plan.numBlocks.toNat).foldlM (allocateBlock record plan) st
  let st ← (List.range plan.decodeHotBlocks.toNat).foldlM (accessHotBlock record plan) st
  let st ← (List.range (max 0 (plan.numBlocks - plan.decodeHotBlocks)).toNat).foldlM
    (markColdBlock record plan) st
  if record.status = "completed" then
    (List.range plan.numBlocks.toNat).foldlM (freeBlock record plan) st
  else
    .ok st

end Loops

section Import

variable (config : ModelKVConfig) (blockSizeBytes decodeBlockTokens : ℤ) (maxBlocksPerRequest : Option ℤ)

def importRecord (st : ImportState) (record : RequestTraceRecord) : Except Failure ImportState := do
  let totalKvBytes ← estimateRequestKvBytes config record.promptTokens record.generatedTokens
  let plan ←
    blockPlan totalKvBytes record.generatedTokens blockSizeBytes decodeBlockTokens maxBlocksPerRequest
  importBlocks record plan st

end Import

def requestTraceToIntentEvents (records : List RequestTraceRecord) (config : ModelKVConfig)
    (blockSizeBytes : ℤ := 1 * 1024 * 1024) (decodeBlockTokens : ℤ := 16)
    (maxBlocksPerRequest : Option ℤ := none) : Except Failure (List MemoryIntentEvent) :=
  if blockSizeBytes ≤ 0 then
    .error (.valueError "block_size_bytes must be > 0")
  else if decodeBlockTokens ≤ 0 then
    .error (.valueError "decode_block_tokens must be > 0")
  else if maxBlocksPerRequest.any (· ≤ 0) then
    .error (.valueError "max_blocks_per_request must be > 0 when provided")
  else do
    let st ← (RequestTraceRecord.sortedByKey records).foldlM
      (importRecord config blockSizeBytes decodeBlockTokens maxBlocksPerRequest) {}
    .ok st.events

end KVMemoryIntent
