-- SUMMARY: Intents and events as JSON objects: the dictionaries they are written to, reading them from dictionaries, and that reading undoes writing.
import KVDeadlineScheduler.Events
import KVDeadlineScheduler.Trace.Fields

/-!
# Records

`toDict` lists the fields in the order of the source. `fromDict` converts the
fields in the same order and gives them to the constructor, which checks them
again and may pin the record.
-/

namespace KVMemoryIntent

open Fields

namespace MemoryIntent

/-! ## Intents -/

/-- The allowed tiers in the order of their values. -/
def sortedTiers (m : MemoryIntent) : List Tier :=
  (Tier.strEnum.members.filter fun tier => tier ∈ m.allowedTiers).mergeSort fun a b => a.value ≤ b.value

def toDict (m : MemoryIntent) : List (String × Json) := [
  ("object_id", .str m.objectId),
  ("request_id", .str m.requestId),
  ("block_id", .int m.blockId),
  ("object_type", .str m.objectType.value),
  ("phase", .str m.phase.value),
  ("priority", .str m.priority.value),
  ("allowed_tiers", .arr (m.sortedTiers.map fun tier => .str tier.value)),
  ("current_tier", .str m.currentTier.value),
  ("size_bytes", .int m.sizeBytes),
  ("request_priority", .int m.requestPriority),
  ("recency_score", .float m.recencyScore),
  ("deadline_us", orNull .int m.deadlineUs),
  ("slack_us", orNull .int m.slackUs),
  ("arrival_step", orNull .int m.arrivalStep),
  ("target_decode_step", orNull .int m.targetDecodeStep),
  ("expected_reuse_window_tokens", orNull .int m.expectedReuseWindowTokens),
  ("recompute_cost_us", orNull .int m.recomputeCostUs),
  ("spill_cost_us", orNull .int m.spillCostUs),
  ("compression_ok", .bool m.compressionOk),
  ("recompute_ok", .bool m.recomputeOk),
  ("prefetch_ok", .bool m.prefetchOk),
  ("pin_requested", .bool m.pinRequested),
  ("is_draft", .bool m.isDraft),
  ("is_committed", .bool m.isCommitted),
  ("created_step", .int m.createdStep),
  ("last_access_step", .int m.lastAccessStep)]

def fromDict (data : List (String × Json)) : Except ReadFailure { m : MemoryIntent // m.Valid } := do
  let objectId ← str (← item data "object_id")
  let requestId ← str (← item data "request_id")
  let blockId ← int (← item data "block_id")
  let objectType ← read ObjectType.strEnum (← item data "object_type")
  let phase ← read Phase.strEnum (← item data "phase")
  let priority ← read Priority.strEnum (← item data "priority")
  let values ← elements (← item data "allowed_tiers")
  let allowedTiers ← values.mapM (read Tier.strEnum)
  let currentTier ← read Tier.strEnum (← item data "current_tier")
  let sizeBytes ← int (← item data "size_bytes")
  let requestPriority ← int (itemD data "request_priority" (.int 0))
  let recencyScore ← float (itemD data "recency_score" (.float 0))
  let deadlineUs ← optional int (given data "deadline_us")
  let slackUs ← optional int (given data "slack_us")
  let arrivalStep ← optional int (given data "arrival_step")
  let targetDecodeStep ← optional int (given data "target_decode_step")
  let expectedReuseWindowTokens ← optional int (given data "expected_reuse_window_tokens")
  let recomputeCostUs ← optional int (given data "recompute_cost_us")
  let spillCostUs ← optional int (given data "spill_cost_us")
  let createdStep ← int (itemD data "created_step" (.int 0))
  let lastAccessStep ← int (itemD data "last_access_step" (.int 0))
  let intent : MemoryIntent := {
    objectId, requestId, blockId, objectType, phase, priority
    allowedTiers := allowedTiers.toFinset
    currentTier, sizeBytes, requestPriority, recencyScore, deadlineUs, slackUs, arrivalStep,
    targetDecodeStep, expectedReuseWindowTokens, recomputeCostUs, spillCostUs
    compressionOk := bool (itemD data "compression_ok" (.bool false))
    recomputeOk := bool (itemD data "recompute_ok" (.bool false))
    prefetchOk := bool (itemD data "prefetch_ok" (.bool false))
    pinRequested := bool (itemD data "pin_requested" (.bool false))
    isDraft := bool (itemD data "is_draft" (.bool false))
    isCommitted := bool (itemD data "is_committed" (.bool false))
    createdStep, lastAccessStep }
  intent.validated.mapError .refused

theorem toDict_nodup (m : MemoryIntent) : (m.toDict.map Prod.fst).Nodup := by
  simp [toDict]

theorem mem_sortedTiers (m : MemoryIntent) (tier : Tier) : tier ∈ m.sortedTiers ↔ tier ∈ m.allowedTiers := by
  simp [sortedTiers, Tier.strEnum.mem_members]

theorem sortedTiers_toFinset (m : MemoryIntent) : m.sortedTiers.toFinset = m.allowedTiers := by
  ext tier
  rw [List.mem_toFinset, mem_sortedTiers]

/-- A dictionary that holds the fields of a valid record under their names is
read as the record. -/
theorem fromDict_of_get? {m : MemoryIntent} (hm : m.Valid) {data : List (String × Json)}
    (hdata : ∀ field ∈ m.toDict, Json.get? data field.1 = some field.2) :
    fromDict data = .ok ⟨m, hm⟩ := by
  simp only [toDict, List.forall_mem_cons] at hdata
  obtain ⟨objectId, requestId, blockId, objectType, phase, priority, allowedTiers, currentTier, sizeBytes,
    requestPriority, recencyScore, deadlineUs, slackUs, arrivalStep, targetDecodeStep,
    expectedReuseWindowTokens, recomputeCostUs, spillCostUs, compressionOk, recomputeOk, prefetchOk,
    pinRequested, isDraft, isCommitted, createdStep, lastAccessStep, -⟩ := hdata
  have hobjectType : read ObjectType.strEnum (.str m.objectType.value) = .ok m.objectType :=
    read_value ObjectType.strEnum m.objectType
  have hphase : read Phase.strEnum (.str m.phase.value) = .ok m.phase := read_value Phase.strEnum m.phase
  have hpriority : read Priority.strEnum (.str m.priority.value) = .ok m.priority :=
    read_value Priority.strEnum m.priority
  have hcurrentTier : read Tier.strEnum (.str m.currentTier.value) = .ok m.currentTier :=
    read_value Tier.strEnum m.currentTier
  have hallowedTiers : (m.sortedTiers.map fun tier => Json.str tier.value).mapM (read Tier.strEnum) =
      .ok m.sortedTiers := mapM_read Tier.strEnum m.sortedTiers
  simp only [fromDict, item_of_get? objectId, item_of_get? requestId, item_of_get? blockId,
    item_of_get? objectType, item_of_get? phase, item_of_get? priority, item_of_get? allowedTiers,
    item_of_get? currentTier, item_of_get? sizeBytes, itemD_of_get? requestPriority,
    itemD_of_get? recencyScore, optional_int deadlineUs, optional_int slackUs, optional_int arrivalStep,
    optional_int targetDecodeStep, optional_int expectedReuseWindowTokens, optional_int recomputeCostUs,
    optional_int spillCostUs, itemD_of_get? compressionOk, itemD_of_get? recomputeOk, itemD_of_get? prefetchOk,
    itemD_of_get? pinRequested, itemD_of_get? isDraft, itemD_of_get? isCommitted, itemD_of_get? createdStep,
    itemD_of_get? lastAccessStep, str, int, float, Fields.bool, elements, ok_bind, hobjectType, hphase,
    hpriority, hallowedTiers, hcurrentTier, sortedTiers_toFinset]
  exact congrArg (Except.mapError ReadFailure.refused) hm.validated

/-! ### What the writer does to an intent -/

theorem sortElements_str (texts : List String) : Json.sortElements (texts.map .str) = texts.map .str := by
  induction texts with
  | nil => rfl
  | cons text texts ih => rw [List.map_cons, Json.sortElements, Json.sortKeys, ih]

theorem doublesElements_str (texts : List String) : Json.DoublesElements (texts.map .str) := by
  induction texts with
  | nil => trivial
  | cons text texts ih => exact ⟨trivial, ih⟩

/-- No field of an intent is an object, so sorting keys leaves the fields alone. -/
theorem sortKeys_toDict (m : MemoryIntent) : ∀ field ∈ m.toDict, Json.sortKeys field.2 = field.2 := by
  have horNull : ∀ i : Option ℤ, Json.sortKeys (orNull .int i) = orNull .int i := by
    intro i
    cases i <;> rfl
  have htiers : Json.sortElements (m.sortedTiers.map fun tier => .str tier.value) =
      m.sortedTiers.map fun tier => .str tier.value := by
    have h := sortElements_str (m.sortedTiers.map Tier.value)
    rwa [List.map_map] at h
  simp [toDict, Json.sortKeys, horNull, htiers]

theorem doubles_toDict {m : MemoryIntent} (hrecency : Double.IsDouble m.recencyScore) :
    Json.DoublesMembers m.toDict := by
  have horNull : ∀ i : Option ℤ, Json.Doubles (orNull .int i) := by
    intro i
    cases i <;> trivial
  have htiers : Json.DoublesElements (m.sortedTiers.map fun tier => .str tier.value) := by
    have h := doublesElements_str (m.sortedTiers.map Tier.value)
    rwa [List.map_map] at h
  simp [toDict, Json.DoublesMembers, Json.Doubles, horNull, htiers, hrecency]

/-- The fields of an intent stand under their names in the object that is written. -/
theorem get?_sortMembers_toDict (m : MemoryIntent) :
    ∀ field ∈ m.toDict,
      Json.get? ((Json.sortMembers m.toDict).mergeSort fun a b => a.1 ≤ b.1) field.1 = some field.2 := by
  intro field hfield
  rw [Json.get?_sortMembers m.toDict_nodup hfield, sortKeys_toDict m field hfield]

end MemoryIntent

/-! ## Events -/

namespace MemoryIntentEvent

def toDict (e : MemoryIntentEvent) : List (String × Json) := [
  ("step", .int e.step),
  ("event_type", .str e.eventType.value),
  ("intent", .obj e.intent.toDict),
  ("reason", orNull .str e.reason),
  ("latency_us", orNull .int e.latencyUs)]

def fromDict (data : Json) : Except ReadFailure MemoryIntentEvent := do
  let data ← members data
  let step ← int (← item data "step")
  let eventType ← read EventType.strEnum (← item data "event_type")
  let intent ← MemoryIntent.fromDict (← dict (← item data "intent"))
  let reason ← optional str (given data "reason")
  let latencyUs ← optional int (given data "latency_us")
  (MemoryIntentEvent.postInit step eventType intent reason latencyUs).mapError .refused

def toJson (e : MemoryIntentEvent) : String := Json.dumps (.obj e.toDict)

def fromJson (value : String) : Except ReadFailure MemoryIntentEvent :=
  match Json.loads value with
  | some data => fromDict data
  | none => .error .jsonDecodeError

theorem toDict_nodup (e : MemoryIntentEvent) : (e.toDict.map Prod.fst).Nodup := by
  simp [toDict]

theorem doubles_toDict (e : MemoryIntentEvent) (hrecency : Double.IsDouble e.intent.recencyScore) :
    Json.Doubles (.obj e.toDict) := by
  have hintent := MemoryIntent.doubles_toDict hrecency
  have hreason : Json.Doubles (orNull .str e.reason) := by cases e.reason <;> trivial
  have hlatency : Json.Doubles (orNull .int e.latencyUs) := by cases e.latencyUs <;> trivial
  exact ⟨trivial, trivial, hintent, hreason, hlatency, trivial⟩

/-- A dictionary that holds the fields of an event under their names, as the writer
leaves them, is read as the event. -/
theorem fromDict_of_get? (e : MemoryIntentEvent) {data : List (String × Json)}
    (hdata : ∀ field ∈ e.toDict, Json.get? data field.1 = some (Json.sortKeys field.2)) :
    fromDict (.obj data) = .ok e := by
  have hreason : Json.sortKeys (orNull .str e.reason) = orNull .str e.reason := by cases e.reason <;> rfl
  have hlatency : Json.sortKeys (orNull .int e.latencyUs) = orNull .int e.latencyUs := by
    cases e.latencyUs <;> rfl
  simp only [toDict, List.forall_mem_cons, Json.sortKeys, hreason, hlatency] at hdata
  obtain ⟨step, eventType, intent, reason, latencyUs, -⟩ := hdata
  have heventType : read EventType.strEnum (.str e.eventType.value) = .ok e.eventType :=
    read_value EventType.strEnum e.eventType
  have hintent := MemoryIntent.fromDict_of_get? e.intent_valid e.intent.get?_sortMembers_toDict
  simp only [fromDict, members, dict, item_of_get? step, item_of_get? eventType, item_of_get? intent,
    optional_str reason, optional_int latencyUs, int, ok_bind, heventType, hintent]
  exact congrArg (Except.mapError ReadFailure.refused) (postInit_eq e)

/-- An event is read back from its dictionary when the writer has sorted the keys. -/
theorem fromDict_sortKeys (e : MemoryIntentEvent) : fromDict (Json.sortKeys (.obj e.toDict)) = .ok e := by
  apply fromDict_of_get?
  intro field hfield
  exact Json.get?_sortMembers e.toDict_nodup hfield

/-- An event is read back from the text it is written as. -/
theorem fromJson_toJson (e : MemoryIntentEvent) (hrecency : Double.IsDouble e.intent.recencyScore) :
    fromJson e.toJson = .ok e := by
  rw [fromJson, toJson, Json.loads_dumps (e.doubles_toDict hrecency)]
  exact fromDict_sortKeys e

end MemoryIntentEvent

end KVMemoryIntent
