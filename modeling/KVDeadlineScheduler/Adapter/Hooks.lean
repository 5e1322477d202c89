-- SUMMARY: What the building blocks of the adapter's hooks do to its state, as rules for both outcomes.
import KVDeadlineScheduler.Adapter.VllmAdapter

/-!
# Rules for the hooks

One rule for each function that hooks are made of. Hooks are then taken apart by
these rules, and never by the definitions below them.
-/

namespace KVMemoryIntent

namespace VLLMIntentAdapter

open Stateful (Wp)

/-- The metadata the adapter has for a request, or the defaults. -/
def metadataOf (adapter : VLLMIntentAdapter) (requestId : String) : RequestMetadata :=
  (adapter.requestMetadata.get? requestId).getD {}

/-- The adapter once it holds metadata for a request. -/
def knowing (adapter : VLLMIntentAdapter) (requestId : String) : VLLMIntentAdapter :=
  if (adapter.requestMetadata.get? requestId).isSome then adapter
  else { adapter with requestMetadata := adapter.requestMetadata.set requestId {} }

/-- The adapter after an event was recorded. -/
def recorded (adapter : VLLMIntentAdapter) (event : MemoryIntentEvent) : VLLMIntentAdapter :=
  { adapter with
    recorder := adapter.recorder.record event
    blocks := adapter.blocks.set (event.intent.requestId, event.intent.blockId)
      ⟨event.intent, event.intent_valid⟩ }

/-- The adapter with a block in its cache. -/
def caching (adapter : VLLMIntentAdapter) (key : String × ℤ) (block : ValidIntent) :
    VLLMIntentAdapter :=
  { adapter with blocks := adapter.blocks.set key block }

@[simp] theorem knowing_recorder (adapter : VLLMIntentAdapter) (requestId : String) :
    (adapter.knowing requestId).recorder = adapter.recorder := by
  unfold knowing
  split <;> rfl

@[simp] theorem knowing_blocks (adapter : VLLMIntentAdapter) (requestId : String) :
    (adapter.knowing requestId).blocks = adapter.blocks := by
  unfold knowing
  split <;> rfl

@[simp] theorem knowing_defaultAllowedTiers (adapter : VLLMIntentAdapter) (requestId : String) :
    (adapter.knowing requestId).defaultAllowedTiers = adapter.defaultAllowedTiers := by
  unfold knowing
  split <;> rfl

@[simp] theorem knowing_defaultBlockSizeBytes (adapter : VLLMIntentAdapter) (requestId : String) :
    (adapter.knowing requestId).defaultBlockSizeBytes = adapter.defaultBlockSizeBytes := by
  unfold knowing
  split <;> rfl

/-- Only a request without metadata gets some, and then the defaults. -/
theorem knowing_get? (adapter : VLLMIntentAdapter) (requestId requestId' : String) :
    (adapter.knowing requestId).requestMetadata.get? requestId' =
      if requestId' = requestId then some (adapter.metadataOf requestId)
      else adapter.requestMetadata.get? requestId' := by
  unfold knowing metadataOf
  cases h : adapter.requestMetadata.get? requestId with
  | some requestMeta =>
    simp only [Option.isSome_some, if_true, Option.getD_some]
    split
    next heq => rw [heq, h]
    next => rfl
  | none => simp [OrderedDict.get?_set]

theorem knowing_of_known {adapter : VLLMIntentAdapter} {requestId : String}
    (h : (adapter.requestMetadata.get? requestId).isSome) : adapter.knowing requestId = adapter :=
  if_pos h

section Rules

variable {s : VLLMIntentAdapter} {E : Failure → VLLMIntentAdapter → Prop}

theorem wp_requestDefaults (requestId : String) {Q : RequestMetadata → VLLMIntentAdapter → Prop} :
    Wp (requestDefaults requestId) Q E s = Q (s.metadataOf requestId) (s.knowing requestId) := by
  rw [requestDefaults, Stateful.wp_bind, Stateful.wp_get]
  unfold metadataOf knowing
  cases s.requestMetadata.get? requestId <;> rfl

theorem wp_validated {m : MemoryIntent} {Q : ValidIntent → VLLMIntentAdapter → Prop}
    (hok : ∀ v : ValidIntent,
      v.1 = { m with pinRequested := m.pinRequested || m.priority = .decodeCritical } → Q v s)
    (herror : ∀ e, E e s) : Wp (Stateful.lift m.validated) Q E s :=
  Stateful.wp_lift (fun v h => hok v (MemoryIntent.validated_fields h)) fun e _ => herror e

theorem wp_makeIntent {requestId : String} {blockId : ℤ} {options : IntentOptions}
    {Q : ValidIntent → VLLMIntentAdapter → Prop}
    (hok : ∀ v : ValidIntent,
      (s.intentFields (s.metadataOf requestId) requestId blockId options).postInit = .ok v.1 →
      Q v (s.knowing requestId))
    (herror : ∀ e, E e (s.knowing requestId)) :
    Wp (makeIntent requestId blockId options) Q E s := by
  rw [makeIntent, Stateful.wp_bind, wp_requestDefaults, Stateful.wp_bind, Stateful.wp_get]
  refine Stateful.wp_lift (fun v hv => hok v ?_) fun e _ => herror e
  have hfields : (s.knowing requestId).intentFields (s.metadataOf requestId) requestId blockId options =
      s.intentFields (s.metadataOf requestId) requestId blockId options := by
    simp [intentFields, sizeOrDefault]
  rw [← hfields]
  exact MemoryIntent.validated_eq_ok hv

/-- Recording cannot fail: a copy of a valid intent is valid. -/
theorem wp_record {event : MemoryIntentEvent} {Q : MemoryIntentEvent → VLLMIntentAdapter → Prop} :
    Wp (record event) Q E s = Q event (s.recorded event) := by
  have hcopy : event.intent.validated = .ok ⟨event.intent, event.intent_valid⟩ :=
    event.intent_valid.validated
  rw [record, Stateful.wp_bind, Stateful.wp_modify, Stateful.wp_bind, hcopy]
  rfl

/-- An event is emitted unless its step is negative. -/
theorem wp_emit_reason {step : ℤ} {eventType : EventType} {intent : ValidIntent} {reason : String}
    {Q : MemoryIntentEvent → VLLMIntentAdapter → Prop}
    (hok : 0 ≤ step → ∀ event : MemoryIntentEvent, event.step = step →
      event.eventType = eventType → event.intent = intent.1 → event.reason = some reason →
      Q event (s.recorded event))
    (herror : step < 0 → ∀ e, E e s) : Wp (emit step eventType intent reason) Q E s := by
  rw [emit, Stateful.wp_bind]
  by_cases hstep : step < 0
  · rw [MemoryIntentEvent.postInit, dif_pos hstep]
    exact herror hstep _
  · rw [MemoryIntentEvent.postInit, dif_neg hstep, dif_pos (by simp)]
    refine Stateful.wp_lift (fun event hevent => ?_) fun e he => by cases he
    cases hevent
    rw [wp_record]
    exact hok (not_lt.mp hstep) _ rfl rfl rfl rfl

theorem wp_emit {step : ℤ} {eventType : EventType} {intent : ValidIntent} {reason : String}
    {Q : MemoryIntentEvent → VLLMIntentAdapter → Prop}
    (hok : 0 ≤ step → ∀ event : MemoryIntentEvent, event.step = step →
      event.eventType = eventType → event.intent = intent.1 → Q event (s.recorded event))
    (herror : step < 0 → ∀ e, E e s) : Wp (emit step eventType intent reason) Q E s :=
  wp_emit_reason (fun hstep event hat htype hintent _ => hok hstep event hat htype hintent) herror

/-- The options with which a block that is not cached is made. -/
def creationOptions (step : ℤ) (options : BlockOptions) : IntentOptions where
  phase := options.phase
  priority := if options.decodeCritical then .decodeCritical else options.priority
  requestPriority := options.requestPriority
  deadlineUs := options.deadlineUs
  isDraft := options.isDraft
  prefetchOk := options.decodeCritical
  pinRequested := options.decodeCritical
  createdStep := step
  lastAccessStep := step

/-- A cached block is refreshed without a warning, and a block that is made comes with one. -/
theorem wp_getOrCreateBlock_fields {step : ℤ} {requestId : String} {blockId : ℤ}
    {options : BlockOptions} {Q : ValidIntent × Option String → VLLMIntentAdapter → Prop}
    (hcached : ∀ cached, s.blocks.get? (requestId, blockId) = some cached →
      ∀ block : ValidIntent, (refreshedFields cached step options).postInit = .ok block.1 →
        Q (block, none) (s.caching (requestId, blockId) block))
    (hnew : s.blocks.get? (requestId, blockId) = none →
      ∀ (block : ValidIntent) (warning : String),
        (s.intentFields (s.metadataOf requestId) requestId blockId
          (creationOptions step options)).postInit = .ok block.1 →
        Q (block, some warning) ((s.knowing requestId).caching (requestId, blockId) block))
    (herror_cached : (s.blocks.get? (requestId, blockId)).isSome → ∀ e, E e s)
    (herror_new : s.blocks.get? (requestId, blockId) = none → ∀ e, E e (s.knowing requestId)) :
    Wp (getOrCreateBlock step requestId blockId options) Q E s := by
  rw [getOrCreateBlock, Stateful.wp_bind, Stateful.wp_get]
  cases hget : s.blocks.get? (requestId, blockId) with
  | some cached =>
    simp only [hget]
    rw [Stateful.wp_bind]
    refine Stateful.wp_lift (fun block hblock => ?_) fun e _ => herror_cached (by simp [hget]) e
    exact hcached cached hget block (MemoryIntent.validated_eq_ok hblock)
  | none =>
    simp only [hget]
    rw [Stateful.wp_bind]
    refine wp_makeIntent (fun block hblock => ?_) fun e => herror_new hget e
    rw [Stateful.wp_bind, Stateful.wp_modify]
    split
    · exact hnew hget block _ hblock
    · exact hnew hget block _ hblock

theorem wp_getOrCreateBlock {step : ℤ} {requestId : String} {blockId : ℤ} {options : BlockOptions}
    {Q : ValidIntent × Option String → VLLMIntentAdapter → Prop}
    (hcached : ∀ cached, s.blocks.get? (requestId, blockId) = some cached →
      ∀ block : ValidIntent, (refreshedFields cached step options).postInit = .ok block.1 →
        Q (block, none) (s.caching (requestId, blockId) block))
    (hnew : s.blocks.get? (requestId, blockId) = none →
      ∀ (block : ValidIntent) (warning : String), block.1.requestId = requestId →
        block.1.blockId = blockId → block.1.allowedTiers = s.defaultAllowedTiers →
        Q (block, some warning) ((s.knowing requestId).caching (requestId, blockId) block))
    (herror_cached : (s.blocks.get? (requestId, blockId)).isSome → ∀ e, E e s)
    (herror_new : s.blocks.get? (requestId, blockId) = none → ∀ e, E e (s.knowing requestId)) :
    Wp (getOrCreateBlock step requestId blockId options) Q E s := by
  refine wp_getOrCreateBlock_fields hcached (fun hget block warning hblock => ?_) herror_cached
    herror_new
  have hfields := (MemoryIntent.postInit_ok hblock).1
  exact hnew hget block warning (by rw [hfields]; rfl) (by rw [hfields]; rfl) (by rw [hfields]; rfl)

end Rules

end VLLMIntentAdapter

end KVMemoryIntent
