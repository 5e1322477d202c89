-- SUMMARY: Merging the intent of an event into the stored block, with the fields each event type may overwrite.
import KVDeadlineScheduler.Events

/-!
# Merging intents

An event on a live block carries a full intent, but most event types may only
overwrite some of the stored fields. `mergeFields` lists them by event type and
`mergeIntent` copies them over, which runs the checks of `postInit`.
-/

namespace KVMemoryIntent

/-- The fields a merge may overwrite: all but `objectId`. -/
inductive IntentField where
  | requestId
  | blockId
  | objectType
  | phase
  | priority
  | allowedTiers
  | currentTier
  | sizeBytes
  | requestPriority
  | recencyScore
  | deadlineUs
  | slackUs
  | arrivalStep
  | targetDecodeStep
  | expectedReuseWindowTokens
  | recomputeCostUs
  | spillCostUs
  | compressionOk
  | recomputeOk
  | prefetchOk
  | pinRequested
  | isDraft
  | isCommitted
  | createdStep
  | lastAccessStep
  deriving DecidableEq

namespace IntentField

/-- The default of `_merge_intent`. -/
def all : List IntentField :=
  [requestId, blockId, objectType, phase, priority, allowedTiers, currentTier, sizeBytes,
    requestPriority, recencyScore, deadlineUs, slackUs, arrivalStep, targetDecodeStep,
    expectedReuseWindowTokens, recomputeCostUs, spillCostUs, compressionOk, recomputeOk, prefetchOk,
    pinRequested, isDraft, isCommitted, createdStep, lastAccessStep]

end IntentField

/-- The fields `run` merges for an event on a live block. -/
def mergeFields : EventType → List IntentField
  | .markedDecodeCritical =>
    [.priority, .phase, .pinRequested, .deadlineUs, .slackUs, .targetDecodeStep,
      .expectedReuseWindowTokens, .requestPriority, .recencyScore]
  | .markedCold =>
    [.priority, .phase, .deadlineUs, .slackUs, .compressionOk, .recomputeOk, .prefetchOk,
      .recencyScore]
  | .accessed =>
    [.lastAccessStep, .recencyScore, .phase, .priority, .deadlineUs, .slackUs, .targetDecodeStep,
      .expectedReuseWindowTokens, .pinRequested, .prefetchOk]
  | .committed => [.isCommitted, .isDraft]
  | .allocated | .spilled | .prefetched | .miss | .evicted | .freed => IntentField.all

/-- The record `_merge_intent` builds, before the checks. -/
def overwrite (existing incoming : MemoryIntent) (fields : List IntentField) : MemoryIntent where
  objectId := existing.objectId
  requestId := if .requestId ∈ fields then incoming.requestId else existing.requestId
  blockId := if .blockId ∈ fields then incoming.blockId else existing.blockId
  objectType := if .objectType ∈ fields then incoming.objectType else existing.objectType
  phase := if .phase ∈ fields then incoming.phase else existing.phase
  priority := if .priority ∈ fields then incoming.priority else existing.priority
  allowedTiers := if .allowedTiers ∈ fields then incoming.allowedTiers else existing.allowedTiers
  currentTier := if .currentTier ∈ fields then incoming.currentTier else existing.currentTier
  sizeBytes := if .sizeBytes ∈ fields then incoming.sizeBytes else existing.sizeBytes
  requestPriority :=
    if .requestPriority ∈ fields then incoming.requestPriority else existing.requestPriority
  recencyScore := if .recencyScore ∈ fields then incoming.recencyScore else existing.recencyScore
  deadlineUs := if .deadlineUs ∈ fields then incoming.deadlineUs else existing.deadlineUs
  slackUs := if .slackUs ∈ fields then incoming.slackUs else existing.slackUs
  arrivalStep := if .arrivalStep ∈ fields then incoming.arrivalStep else existing.arrivalStep
  targetDecodeStep :=
    if .targetDecodeStep ∈ fields then incoming.targetDecodeStep else existing.targetDecodeStep
  expectedReuseWindowTokens :=
    if .expectedReuseWindowTokens ∈ fields then incoming.expectedReuseWindowTokens
    else existing.expectedReuseWindowTokens
  recomputeCostUs :=
    if .recomputeCostUs ∈ fields then incoming.recomputeCostUs else existing.recomputeCostUs
  spillCostUs := if .spillCostUs ∈ fields then incoming.spillCostUs else existing.spillCostUs
  compressionOk := if .compressionOk ∈ fields then incoming.compressionOk else existing.compressionOk
  recomputeOk := if .recomputeOk ∈ fields then incoming.recomputeOk else existing.recomputeOk
  prefetchOk := if .prefetchOk ∈ fields then incoming.prefetchOk else existing.prefetchOk
  pinRequested := if .pinRequested ∈ fields then incoming.pinRequested else existing.pinRequested
  isDraft := if .isDraft ∈ fields then incoming.isDraft else existing.isDraft
  isCommitted := if .isCommitted ∈ fields then incoming.isCommitted else existing.isCommitted
  createdStep := if .createdStep ∈ fields then incoming.createdStep else existing.createdStep
  lastAccessStep :=
    if .lastAccessStep ∈ fields then incoming.lastAccessStep else existing.lastAccessStep

def mergeIntent (existing incoming : MemoryIntent) (fields : List IntentField) :
    Except Failure MemoryIntent :=
  (overwrite existing incoming fields).postInit

/-- A merge of all fields replaces the stored block. -/
theorem overwrite_all {existing incoming : MemoryIntent}
    (h : existing.objectId = incoming.objectId) : overwrite existing incoming IntentField.all = incoming := by
  obtain ⟨objectId⟩ := existing
  obtain rfl : objectId = incoming.objectId := h
  rfl

theorem overwrite_markedDecodeCritical (existing incoming : MemoryIntent) :
    overwrite existing incoming (mergeFields .markedDecodeCritical) =
      { existing with
        priority := incoming.priority
        phase := incoming.phase
        pinRequested := incoming.pinRequested
        deadlineUs := incoming.deadlineUs
        slackUs := incoming.slackUs
        targetDecodeStep := incoming.targetDecodeStep
        expectedReuseWindowTokens := incoming.expectedReuseWindowTokens
        requestPriority := incoming.requestPriority
        recencyScore := incoming.recencyScore } := rfl

theorem overwrite_markedCold (existing incoming : MemoryIntent) :
    overwrite existing incoming (mergeFields .markedCold) =
      { existing with
        priority := incoming.priority
        phase := incoming.phase
        deadlineUs := incoming.deadlineUs
        slackUs := incoming.slackUs
        compressionOk := incoming.compressionOk
        recomputeOk := incoming.recomputeOk
        prefetchOk := incoming.prefetchOk
        recencyScore := incoming.recencyScore } := rfl

theorem overwrite_accessed (existing incoming : MemoryIntent) :
    overwrite existing incoming (mergeFields .accessed) =
      { existing with
        lastAccessStep := incoming.lastAccessStep
        recencyScore := incoming.recencyScore
        phase := incoming.phase
        priority := incoming.priority
        deadlineUs := incoming.deadlineUs
        slackUs := incoming.slackUs
        targetDecodeStep := incoming.targetDecodeStep
        expectedReuseWindowTokens := incoming.expectedReuseWindowTokens
        pinRequested := incoming.pinRequested
        prefetchOk := incoming.prefetchOk } := rfl

end KVMemoryIntent
