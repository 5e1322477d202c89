-- SUMMARY: The import of an OpenAI-compatible proxy log: the entries, the intents of a request's blocks, and the loops that emit their events.
import KVDeadlineScheduler.Importer.Import

/-!
# Importing proxy logs

Every entry of the log becomes a request that is allocated at its index, marked one
step later, and freed when its completion is taken to have ended. The two divisions give
floats. Both are done first here, since nothing between them fails.
-/

namespace KVMemoryIntent

/-! ## Entries -/

/-- The token counts of an entry. Any of them may be missing. -/
structure ProxyUsage where
  promptTokens : Option ℤ := none
  completionTokens : Option ℤ := none
  totalTokens : Option ℤ := none

/-- One line of the log, with the fields that the import reads. -/
structure ProxyLogEntry where
  id : Option String := none
  model : Option String := none
  created : Option ℤ := none
  usage : ProxyUsage := {}

namespace ProxyLogEntry

def promptTokens (entry : ProxyLogEntry) : ℤ := entry.usage.promptTokens.getD 0

def completionTokens (entry : ProxyLogEntry) : ℤ := entry.usage.completionTokens.getD 0

def totalTokens (entry : ProxyLogEntry) : ℤ :=
  entry.usage.totalTokens.getD (entry.promptTokens + entry.completionTokens)

/-- Entries are sorted by creation, and by id among those created together. -/
def key (entry : ProxyLogEntry) : ℤ ×ₗ String := toLex (entry.created.getD 0, entry.id.getD "")

/-- The entries in the order of their keys, those with equal keys as they come. -/
def sortedByKey (entries : List ProxyLogEntry) : List ProxyLogEntry :=
  entries.mergeSort fun a b => a.key ≤ b.key

end ProxyLogEntry

/-- `x or y`, where a missing text and an empty one both give way to `y`. -/
def textOrElse (x : Option String) (y : String) : String :=
  match x with
  | none => y
  | some x => if x = "" then y else x

/-- The preset of that name, built anew. An unknown name means llama-3-8b. -/
def resolveModelConfig (modelName : String) : Except Failure ModelKVConfig :=
  let preset := (modelPresets.lookup modelName).getD llama3_8b
  ModelKVConfig.postInit preset.modelName preset.numLayers preset.hiddenSize preset.numAttentionHeads
    (some preset.numKvHeads) (some preset.headDim) preset.dtypeBytes

/-! ## Requests -/

/-- The locals of the import for one entry. -/
structure ProxyRequest where
  step : ℤ
  requestId : String
  bytesPerBlock : ℤ
  numBlocks : ℤ
  completionSteps : ℤ
  totalTokens : ℤ

namespace ProxyRequest

/-- The request that the entry at an index of the sorted log stands for. -/
def ofEntry (config : ModelKVConfig) (logicalBlockTokens : ℤ) (entry : ProxyLogEntry) (step : ℕ) :
    Except Failure ProxyRequest := do
  let promptBlocks ← ceilDiv entry.promptTokens logicalBlockTokens
  let completionSteps ← ceilDiv (max entry.completionTokens 1) 64
  .ok
    { step := step
      requestId := textOrElse entry.id ("request-" ++ toString step)
      bytesPerBlock := kvBytesPerToken config * logicalBlockTokens
      numBlocks := max 1 promptBlocks
      completionSteps := completionSteps
      totalTokens := entry.totalTokens }

variable (request : ProxyRequest) (blockId : ℤ)

def blockObjectId : String := request.requestId ++ ":proxy:" ++ toString blockId

def markStep : ℤ := request.step + 1

def freeStep : ℤ := request.step + request.completionSteps

/-! ## Intents -/

def allocIntent : MemoryIntent where
  objectId := request.blockObjectId blockId
  requestId := request.requestId
  blockId := blockId
  objectType := .kvCache
  phase := .prefill
  priority := .warm
  allowedTiers := {.hbm, .dram}
  currentTier := .hbm
  sizeBytes := request.bytesPerBlock
  requestPriority := 50
  recencyScore := 2 / 10
  deadlineUs := none
  slackUs := none
  arrivalStep := some request.step
  targetDecodeStep := some (request.step + 1)
  expectedReuseWindowTokens := some (max 1 (request.totalTokens / max request.numBlocks 1))
  recomputeCostUs := some 250
  spillCostUs := some 200
  compressionOk := true
  recomputeOk := true
  prefetchOk := false
  pinRequested := false
  isDraft := false
  isCommitted := true
  createdStep := request.step
  lastAccessStep := request.step

def hotIntent : MemoryIntent where
  objectId := request.blockObjectId blockId
  requestId := request.requestId
  blockId := blockId
  objectType := .kvCache
  phase := .decode
  priority := .decodeCritical
  allowedTiers := {.hbm, .dram}
  currentTier := .hbm
  sizeBytes := request.bytesPerBlock
  requestPriority := 50
  recencyScore := 1
  deadlineUs := some 2000
  slackUs := some 800
  arrivalStep := some request.step
  targetDecodeStep := some request.markStep
  expectedReuseWindowTokens := some 1
  recomputeCostUs := some 6000
  spillCostUs := some 250
  compressionOk := false
  recomputeOk := false
  prefetchOk := true
  pinRequested := true
  isDraft := false
  isCommitted := true
  createdStep := request.markStep
  lastAccessStep := request.markStep

def freedIntent : MemoryIntent where
  objectId := request.blockObjectId blockId
  requestId := request.requestId
  blockId := blockId
  objectType := .kvCache
  phase := .done
  priority := .cold
  allowedTiers := {.hbm, .dram}
  currentTier := .dram
  sizeBytes := request.bytesPerBlock
  requestPriority := 50
  recencyScore := 0
  deadlineUs := none
  slackUs := none
  arrivalStep := some request.step
  targetDecodeStep := none
  expectedReuseWindowTokens := none
  recomputeCostUs := some 0
  spillCostUs := some 0
  compressionOk := true
  recomputeOk := false
  prefetchOk := false
  pinRequested := false
  isDraft := false
  isCommitted := true
  createdStep := request.freeStep
  lastAccessStep := request.freeStep

/-! ## Loops -/

/-- `events.append` of an event for an intent that is built first. -/
def emit (events : List MemoryIntentEvent) (step : ℤ) (eventType : EventType) (intent : MemoryIntent)
    (reason : String) : Except Failure (List MemoryIntentEvent) := do
  let intent ← intent.validated
  let event ← MemoryIntentEvent.postInit step eventType intent (some reason) none
  .ok (events ++ [event])

def allocateBlock (events : List MemoryIntentEvent) (blockId : ℕ) : Except Failure (List MemoryIntentEvent) :=
  emit events request.step .allocated (request.allocIntent blockId)
    "imported from OpenAI-compatible proxy log"

def markHotBlock (events : List MemoryIntentEvent) (blockId : ℕ) : Except Failure (List MemoryIntentEvent) :=
  emit events request.markStep .markedDecodeCritical (request.hotIntent blockId)
    "decode-critical block inferred from proxy completion log"

def freeBlock (events : List MemoryIntentEvent) (blockId : ℕ) : Except Failure (List MemoryIntentEvent) :=
  emit events request.freeStep .freed (request.freedIntent blockId)
    "request completion inferred from proxy log"

/-- `range(num_blocks)`. -/
def blocks : List ℕ := List.range request.numBlocks.toNat

/-- `range(max(0, num_blocks - 2), num_blocks)`. -/
def hotBlocks : List ℕ := request.blocks.drop (max 0 (request.numBlocks - 2)).toNat

/-- The three loops over the blocks of a request. -/
def importBlocks (events : List MemoryIntentEvent) : Except Failure (List MemoryIntentEvent) := do
  let events ← request.blocks.foldlM request.allocateBlock events
  let events ← request.hotBlocks.foldlM request.markHotBlock events
  request.blocks.foldlM request.freeBlock events

end ProxyRequest

/-- The body of the loop over the sorted entries. -/
def importProxyEntry (logicalBlockTokens : ℤ) (modelNameOverride : Option String)
    (events : List MemoryIntentEvent) (entry : ProxyLogEntry × ℕ) :
    Except Failure (List MemoryIntentEvent) := do
  let modelName := textOrElse modelNameOverride (textOrElse entry.1.model "")
  let config ← resolveModelConfig modelName
  let request ← ProxyRequest.ofEntry config logicalBlockTokens entry.1 entry.2
  request.importBlocks events

def openaiProxyLogsToIntentEvents (entries : List ProxyLogEntry) (logicalBlockTokens : ℤ := 256)
    (modelNameOverride : Option String := none) : Except Failure (List MemoryIntentEvent) :=
  if logicalBlockTokens ≤ 0 then
    .error (.valueError "logical_block_tokens must be > 0")
  else
    (ProxyLogEntry.sortedByKey entries).zipIdx.foldlM
      (importProxyEntry logicalBlockTokens modelNameOverride) []

end KVMemoryIntent
