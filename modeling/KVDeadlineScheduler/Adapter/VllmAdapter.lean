-- SUMMARY: The passive vLLM adapter: its cache of blocks, its request metadata, and the hooks that record events.
import KVDeadlineScheduler.Library.OrderedDict
import KVDeadlineScheduler.Library.Stateful
import KVDeadlineScheduler.Trace.Recorder

/-!
# The vLLM adapter

Hooks turn signals of the serving runtime into recorded events. The adapter
caches the last intent of every block and the metadata of every request. A hook
that raises keeps what it has written so far, so hooks are computations on the
adapter that may fail and keep its state.
-/

namespace KVMemoryIntent

structure RequestMetadata where
  requestPriority : ℤ := 50
  deadlineUs : Option ℤ := none
  arrivalStep : Option ℤ := none
  lastDecodeStep : Option ℤ := none
  deriving DecidableEq

/-- `int(request_meta.get("request_priority") or 50)`: a priority of 0 counts as missing. -/
def RequestMetadata.priorityOrDefault (requestMeta : RequestMetadata) : ℤ :=
  if requestMeta.requestPriority = 0 then 50 else requestMeta.requestPriority

structure VLLMIntentAdapter where
  recorder : IntentTraceRecorder := { events := [] }
  defaultBlockSizeBytes : ℤ := 16 * 1024
  defaultAllowedTiers : Finset Tier := {.hbm, .dram}
  blocks : OrderedDict (String × ℤ) ValidIntent := .empty
  requestMetadata : OrderedDict String RequestMetadata := .empty

namespace VLLMIntentAdapter

/-- A new adapter. An empty set of tiers counts as missing. -/
def init (recorder : Option IntentTraceRecorder) (defaultBlockSizeBytes : ℤ)
    (defaultAllowedTiers : Option (Finset Tier)) : VLLMIntentAdapter where
  recorder := recorder.getD { events := [] }
  defaultBlockSizeBytes := defaultBlockSizeBytes
  defaultAllowedTiers := (defaultAllowedTiers.filter (· ≠ ∅)).getD {.hbm, .dram}

abbrev Hook (α : Type) := Stateful VLLMIntentAdapter Failure α

open Stateful (get modify lift forEach)

def objectId (requestId : String) (blockId : ℤ) : String := s!"{requestId}:kv:{blockId}"

/-- The metadata of a request. An unknown request is given defaults first. -/
def requestDefaults (requestId : String) : Hook RequestMetadata := do
  let adapter ← get
  match adapter.requestMetadata.get? requestId with
  | some requestMeta => return requestMeta
  | none =>
    modify fun adapter =>
      { adapter with requestMetadata := adapter.requestMetadata.set requestId {} }
    return {}

/-- Append an event to the trace and cache a copy of its intent. -/
def record (event : MemoryIntentEvent) : Hook MemoryIntentEvent := do
  modify fun adapter => { adapter with recorder := adapter.recorder.record event }
  let intent ← lift event.intent.validated
  modify fun adapter =>
    { adapter with blocks := adapter.blocks.set (intent.1.requestId, intent.1.blockId) intent }
  return event

/-- Construct an event and record it. -/
def emit (step : ℤ) (eventType : EventType) (intent : ValidIntent) (reason : String) :
    Hook MemoryIntentEvent := do
  let event ← lift (MemoryIntentEvent.postInit step eventType intent (some reason) none)
  record event

def computeSlack (deadlineUs offset requestPriority : ℤ) : ℤ :=
  let base := max 50 (deadlineUs / 5)
  let positionPenalty := offset * 40
  let priorityBonus := requestPriority / 10 * 10
  max 50 (base - positionPenalty + priorityBonus)

/-- The keyword arguments of `_make_intent`. -/
structure IntentOptions where
  phase : Phase
  priority : Priority
  requestPriority : Option ℤ := none
  deadlineUs : Option ℤ := none
  sizeBytes : Option ℤ := none
  isDraft : Bool := false
  isCommitted : Bool := false
  prefetchOk : Bool := false
  pinRequested : Bool := false
  compressionOk : Bool := false
  recomputeOk : Bool := false
  expectedReuseWindowTokens : Option ℤ := none
  recencyScore : ℚ := 0
  createdStep : ℤ := 0
  lastAccessStep : ℤ := 0

/-- `size_bytes or self.default_block_size_bytes`. -/
def sizeOrDefault (adapter : VLLMIntentAdapter) : Option ℤ → ℤ
  | none => adapter.defaultBlockSizeBytes
  | some sizeBytes => if sizeBytes = 0 then adapter.defaultBlockSizeBytes else sizeBytes

/-- The fields `_make_intent` hands to the constructor, for a request with the given metadata. -/
def intentFields (adapter : VLLMIntentAdapter) (requestMeta : RequestMetadata) (requestId : String)
    (blockId : ℤ) (options : IntentOptions) : MemoryIntent :=
  let resolvedPriority := options.requestPriority.getD requestMeta.priorityOrDefault
  let resolvedDeadline := options.deadlineUs <|> requestMeta.deadlineUs
  { objectId := objectId requestId blockId
    requestId := requestId
    blockId := blockId
    objectType := .kvCache
    phase := options.phase
    priority := options.priority
    allowedTiers := adapter.defaultAllowedTiers
    currentTier := .hbm
    sizeBytes := adapter.sizeOrDefault options.sizeBytes
    requestPriority := resolvedPriority
    recencyScore := options.recencyScore
    deadlineUs := resolvedDeadline
    slackUs := resolvedDeadline.map fun d => computeSlack d 0 resolvedPriority
    arrivalStep := requestMeta.arrivalStep
    targetDecodeStep := none
    expectedReuseWindowTokens := options.expectedReuseWindowTokens
    recomputeCostUs := some (if options.priority = .decodeCritical then 4000 else 250)
    spillCostUs := some 200
    compressionOk := options.compressionOk
    recomputeOk := options.recomputeOk
    prefetchOk := options.prefetchOk
    pinRequested := options.pinRequested
    isDraft := options.isDraft
    isCommitted := options.isCommitted
    createdStep := options.createdStep
    lastAccessStep := options.lastAccessStep }

def makeIntent (requestId : String) (blockId : ℤ) (options : IntentOptions) : Hook ValidIntent := do
  let requestMeta ← requestDefaults requestId
  let adapter ← get
  lift (adapter.intentFields requestMeta requestId blockId options).validated

/-- The keyword arguments of `_get_or_create_block`. -/
structure BlockOptions where
  phase : Phase
  priority : Priority
  decodeCritical : Bool := false
  requestPriority : Option ℤ := none
  deadlineUs : Option ℤ := none
  isDraft : Bool := false
  reasonPrefix : String := ""

def lazyCreationWarning : String :=
  "block was lazily created by adapter because access arrived before allocation"

/-- The fields of a cached block as a hook refreshes them. -/
def refreshedFields (block : MemoryIntent) (step : ℤ) (options : BlockOptions) : MemoryIntent :=
  let resolvedPriority := options.requestPriority.getD block.requestPriority
  let resolvedDeadline := options.deadlineUs <|> block.deadlineUs
  { block with
    phase := options.phase
    priority := if options.decodeCritical then .decodeCritical else options.priority
    requestPriority := resolvedPriority
    deadlineUs := resolvedDeadline
    slackUs := resolvedDeadline.elim block.slackUs fun d => some (computeSlack d 0 resolvedPriority)
    prefetchOk := options.decodeCritical || block.prefetchOk
    pinRequested := options.decodeCritical || block.pinRequested
    isDraft := if options.isDraft then true else block.isDraft
    lastAccessStep := step }

/-- The cached block, refreshed, or a new one with a warning. Either is cached. -/
def getOrCreateBlock (step : ℤ) (requestId : String) (blockId : ℤ) (options : BlockOptions) :
    Hook (ValidIntent × Option String) := do
  let adapter ← get
  let key := (requestId, blockId)
  match adapter.blocks.get? key with
  | some cached =>
    let block ← lift (refreshedFields cached step options).validated
    modify fun adapter => { adapter with blocks := adapter.blocks.set key block }
    return (block, none)
  | none =>
    let block ← makeIntent requestId blockId
      { phase := options.phase
        priority := if options.decodeCritical then .decodeCritical else options.priority
        requestPriority := options.requestPriority
        deadlineUs := options.deadlineUs
        isDraft := options.isDraft
        prefetchOk := options.decodeCritical
        pinRequested := options.decodeCritical
        createdStep := step
        lastAccessStep := step }
    modify fun adapter => { adapter with blocks := adapter.blocks.set key block }
    let warning := lazyCreationWarning
    if options.reasonPrefix ≠ "" then
      let reasonPrefix := options.reasonPrefix
      return (block, some s!"{reasonPrefix}; {warning}")
    return (block, some warning)

/-! ## The hooks -/

def onRequestScheduled (step : ℤ) (requestId : String) (requestPriority : ℤ) (deadlineUs : Option ℤ) :
    Hook (List MemoryIntentEvent) := do
  modify fun adapter =>
    { adapter with
      requestMetadata := adapter.requestMetadata.set requestId
        { requestPriority := requestPriority
          deadlineUs := deadlineUs
          arrivalStep := some step
          lastDecodeStep := none } }
  return []

/-- The options with which `on_block_allocated` makes an intent. -/
def allocationOptions (step : ℤ) (phase : Phase) (requestPriority deadlineUs sizeBytes : Option ℤ)
    (isDraft : Bool) : IntentOptions where
  phase := phase
  priority := if phase = .prefill then .warm else if isDraft then .cold else .hot
  requestPriority := requestPriority
  deadlineUs := deadlineUs
  sizeBytes := sizeBytes
  isDraft := isDraft
  expectedReuseWindowTokens := some (if phase = .prefill then 32 else 64)
  recencyScore := 1 / 5
  createdStep := step
  lastAccessStep := step

def onBlockAllocated (step : ℤ) (requestId : String) (blockId : ℤ) (phase : Phase)
    (requestPriority deadlineUs sizeBytes : Option ℤ) (isDraft : Bool) : Hook MemoryIntentEvent := do
  let intent ← makeIntent requestId blockId
    (allocationOptions step phase requestPriority deadlineUs sizeBytes isDraft)
  emit step .allocated intent "vLLM-style block allocation"

def onBlockAccessed (step : ℤ) (requestId : String) (blockId : ℤ) (phase : Phase)
    (decodeCritical : Bool) : Hook MemoryIntentEvent := do
  let priority : Priority :=
    if decodeCritical then .decodeCritical else if phase = .decode then .hot else .warm
  let (block, warning) ← getOrCreateBlock step requestId blockId
    { phase := phase, priority := priority, decodeCritical := decodeCritical }
  let intent ← lift
    { block.1 with
      recencyScore := 1
      lastAccessStep := step
      prefetchOk := decodeCritical
      pinRequested := decodeCritical || block.1.pinRequested }.validated
  emit step .accessed intent (warning.getD "vLLM-style block access")

/-- One round of the loop of `on_decode_step`. -/
def decodeBlock (step : ℤ) (requestId : String) (deadlineUs requestPriority : Option ℤ)
    (entry : ℤ × ℕ) : Hook (List MemoryIntentEvent) := do
  let (blockId, index) := entry
  let offset : ℤ := index
  let (block, warning) ← getOrCreateBlock step requestId blockId
    { phase := .decode
      priority := .decodeCritical
      decodeCritical := true
      requestPriority := requestPriority
      deadlineUs := deadlineUs
      reasonPrefix := s!"decode step for {requestId}" }
  let requestMeta ← requestDefaults requestId
  let intent ← lift
    { block.1 with
      phase := .decode
      priority := .decodeCritical
      pinRequested := true
      prefetchOk := true
      deadlineUs := deadlineUs <|> block.1.deadlineUs
      slackUs := deadlineUs.elim block.1.slackUs fun d =>
        some (computeSlack d offset requestMeta.priorityOrDefault)
      targetDecodeStep := some (step + offset)
      expectedReuseWindowTokens := some (1 + offset)
      recencyScore := max (4 / 5) (1 - offset / 10)
      lastAccessStep := step }.validated
  let marked ← emit step .markedDecodeCritical intent
    (warning.getD "vLLM-style decode-critical marking")
  let accessed ← onBlockAccessed step requestId blockId .decode true
  return [marked, accessed]

def onDecodeStep (step : ℤ) (requestId : String) (activeBlockIds : List ℤ)
    (deadlineUs requestPriority : Option ℤ) : Hook (List MemoryIntentEvent) := do
  let requestMeta ← requestDefaults requestId
  modify fun adapter =>
    { adapter with
      requestMetadata := adapter.requestMetadata.set requestId
        { requestMeta with
          requestPriority := requestPriority.getD requestMeta.requestPriority
          deadlineUs := deadlineUs <|> requestMeta.deadlineUs
          lastDecodeStep := some step } }
  forEach (decodeBlock step requestId deadlineUs requestPriority) activeBlockIds.zipIdx

def prefillBlock (step : ℤ) (requestId : String) (blockId : ℤ) : Hook (List MemoryIntentEvent) := do
  let (block, warning) ← getOrCreateBlock step requestId blockId
    { phase := .prefill, priority := .warm }
  let intent ← lift
    { block.1 with
      phase := .prefill
      priority := .warm
      prefetchOk := false
      pinRequested := false
      recencyScore := 7 / 10
      lastAccessStep := step }.validated
  let event ← emit step .accessed intent (warning.getD "vLLM-style prefill access")
  return [event]

def onPrefillStep (step : ℤ) (requestId : String) (blockIds : List ℤ) :
    Hook (List MemoryIntentEvent) :=
  forEach (prefillBlock step requestId) blockIds

def onBlockCommitted (step : ℤ) (requestId : String) (blockId : ℤ) : Hook MemoryIntentEvent := do
  let (block, warning) ← getOrCreateBlock step requestId blockId
    { phase := .verify, priority := .warm }
  let intent ← lift
    { block.1 with
      isCommitted := true
      isDraft := false
      priority := if block.1.phase ≠ Phase.decode then .warm else .hot
      lastAccessStep := step }.validated
  emit step .committed intent (warning.getD "vLLM-style draft commit")

def onBlockMarkedCold (step : ℤ) (requestId : String) (blockId : ℤ)
    (expectedReuseWindowTokens : Option ℤ) : Hook MemoryIntentEvent := do
  let (block, warning) ← getOrCreateBlock step requestId blockId
    { phase := .idle, priority := .cold }
  let intent ← lift
    { block.1 with
      phase := .idle
      priority := .cold
      compressionOk := true
      recomputeOk := !block.1.isCommitted
      prefetchOk := expectedReuseWindowTokens.elim true (fun w => w < 1000)
      expectedReuseWindowTokens := expectedReuseWindowTokens
      pinRequested := false
      recencyScore := 0 }.validated
  emit step .markedCold intent (warning.getD "vLLM-style cold marking")

def onBlockFreed (step : ℤ) (requestId : String) (blockId : ℤ) : Hook MemoryIntentEvent := do
  let (block, warning) ← getOrCreateBlock step requestId blockId
    { phase := .done, priority := .cold }
  let intent ← lift
    { block.1 with
      phase := .done
      priority := .cold
      pinRequested := false
      prefetchOk := false
      currentTier := if Tier.dram ∈ block.1.allowedTiers then .dram else block.1.currentTier
      recencyScore := 0 }.validated
  emit step .freed intent (warning.getD "vLLM-style block free")

/-- One round of the loop of `on_request_finished`. -/
def finishBlock (step : ℤ) (requestId : String) (blockId : ℤ) : Hook (List MemoryIntentEvent) := do
  let (block, warning) ← getOrCreateBlock step requestId blockId
    { phase := .done, priority := .cold }
  let intent ← lift
    { block.1 with
      phase := .done
      priority := .cold
      pinRequested := false
      prefetchOk := false
      compressionOk := true
      recomputeOk := false
      recencyScore := 0 }.validated
  let cold ← emit step .markedCold intent (warning.getD "request finished; block marked done")
  let freed ← onBlockFreed (step + 1) requestId blockId
  modify fun adapter => { adapter with blocks := adapter.blocks.erase (requestId, blockId) }
  return [cold, freed]

def onRequestFinished (step : ℤ) (requestId : String) (blockIds : List ℤ) :
    Hook (List MemoryIntentEvent) := do
  let events ← forEach (finishBlock step requestId) blockIds
  modify fun adapter => { adapter with requestMetadata := adapter.requestMetadata.erase requestId }
  return events

/-! ## Sequences -/

/-- An identifier attribute: a string or a number. -/
inductive SequenceId where
  | str (s : String)
  | int (n : ℤ)

def SequenceId.truthy : SequenceId → Bool
  | .str s => s ≠ ""
  | .int n => n ≠ 0

def SequenceId.toStr : SequenceId → String
  | .str s => s
  | .int n => toString n

/-- The attributes of a vLLM sequence that the adapter reads. -/
structure Sequence where
  requestId : Option SequenceId := none
  seqId : Option SequenceId := none
  activeBlockIds : Option (List ℤ) := none
  blockIds : Option (List ℤ) := none
  decodeDepth : Option ℤ := none
  deadlineUs : Option ℤ := none
  requestPriority : Option ℤ := none
  step : Option ℤ := none

def sequenceRequestId (sequence : Sequence) : Except Failure String :=
  match sequence.requestId.filter SequenceId.truthy <|> sequence.seqId with
  | none => .error (.valueError "sequence must expose request_id or seq_id")
  | some requestId => .ok requestId.toStr

def sequenceBlockIds (sequence : Sequence) : List ℤ :=
  (sequence.activeBlockIds <|> sequence.blockIds).getD []

def emitSequenceAccesses (sequence : Sequence) : Hook (List MemoryIntentEvent) := do
  let requestId ← lift (sequenceRequestId sequence)
  let blockIds := sequenceBlockIds sequence
  let step := sequence.step.getD 0
  let adapter ← get
  if (adapter.requestMetadata.get? requestId).isNone then
    let _ ← onRequestScheduled step requestId (sequence.requestPriority.getD 50) sequence.deadlineUs
  if 0 < sequence.decodeDepth.getD 0 then
    onDecodeStep step requestId blockIds sequence.deadlineUs sequence.requestPriority
  else
    onPrefillStep step requestId blockIds

def spillBlock (step : ℤ) (requestId : String) (blockId : ℤ) : Hook (List MemoryIntentEvent) := do
  let adapter ← get
  match adapter.blocks.get? (requestId, blockId) with
  | none => return []
  | some block =>
    let intent ← lift { block.1 with currentTier := .dram }.validated
    let event ← emit step .spilled intent "sequence preempted; block spilled"
    return [event]

def emitSequenceSpill (sequence : Sequence) : Hook (List MemoryIntentEvent) := do
  let requestId ← lift (sequenceRequestId sequence)
  forEach (spillBlock (sequence.step.getD 0) requestId) (sequenceBlockIds sequence)

def emitSequenceFree (sequence : Sequence) : Hook (List MemoryIntentEvent) := do
  let requestId ← lift (sequenceRequestId sequence)
  onRequestFinished (sequence.step.getD 0) requestId (sequenceBlockIds sequence)

/-- A call of one of the hooks, with its arguments. -/
inductive HookCall where
  | requestScheduled (step : ℤ) (requestId : String) (requestPriority : ℤ) (deadlineUs : Option ℤ)
  | blockAllocated (step : ℤ) (requestId : String) (blockId : ℤ) (phase : Phase)
      (requestPriority deadlineUs sizeBytes : Option ℤ) (isDraft : Bool)
  | blockAccessed (step : ℤ) (requestId : String) (blockId : ℤ) (phase : Phase) (decodeCritical : Bool)
  | decodeStep (step : ℤ) (requestId : String) (activeBlockIds : List ℤ)
      (deadlineUs requestPriority : Option ℤ)
  | prefillStep (step : ℤ) (requestId : String) (blockIds : List ℤ)
  | blockCommitted (step : ℤ) (requestId : String) (blockId : ℤ)
  | blockMarkedCold (step : ℤ) (requestId : String) (blockId : ℤ)
      (expectedReuseWindowTokens : Option ℤ)
  | blockFreed (step : ℤ) (requestId : String) (blockId : ℤ)
  | requestFinished (step : ℤ) (requestId : String) (blockIds : List ℤ)
  | sequenceAccesses (sequence : Sequence)
  | sequenceSpill (sequence : Sequence)
  | sequenceFree (sequence : Sequence)

/-- Run a call. The events it returns are those it has recorded. -/
def HookCall.run : HookCall → Hook (List MemoryIntentEvent)
  | .requestScheduled step requestId requestPriority deadlineUs =>
    onRequestScheduled step requestId requestPriority deadlineUs
  | .blockAllocated step requestId blockId phase requestPriority deadlineUs sizeBytes isDraft =>
    return [← onBlockAllocated step requestId blockId phase requestPriority deadlineUs sizeBytes isDraft]
  | .blockAccessed step requestId blockId phase decodeCritical =>
    return [← onBlockAccessed step requestId blockId phase decodeCritical]
  | .decodeStep step requestId activeBlockIds deadlineUs requestPriority =>
    onDecodeStep step requestId activeBlockIds deadlineUs requestPriority
  | .prefillStep step requestId blockIds => onPrefillStep step requestId blockIds
  | .blockCommitted step requestId blockId => return [← onBlockCommitted step requestId blockId]
  | .blockMarkedCold step requestId blockId expectedReuseWindowTokens =>
    return [← onBlockMarkedCold step requestId blockId expectedReuseWindowTokens]
  | .blockFreed step requestId blockId => return [← onBlockFreed step requestId blockId]
  | .requestFinished step requestId blockIds => onRequestFinished step requestId blockIds
  | .sequenceAccesses sequence => emitSequenceAccesses sequence
  | .sequenceSpill sequence => emitSequenceSpill sequence
  | .sequenceFree sequence => emitSequenceFree sequence

end VLLMIntentAdapter

end KVMemoryIntent
