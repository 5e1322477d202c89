-- SUMMARY: Trace events: a step, an event type, and the intent the event carries.
import KVDeadlineScheduler.Schema

namespace KVMemoryIntent

/-- One event of a trace, with what its constructor and the constructor of its
intent have checked. -/
structure MemoryIntentEvent where
  step : ℤ
  eventType : EventType
  intent : MemoryIntent
  reason : Option String := none
  latencyUs : Option ℤ := none
  step_nonneg : 0 ≤ step
  latencyUs_nonneg : ∀ l ∈ latencyUs, 0 ≤ l
  intent_valid : intent.Valid

/-- The constructor of an event, on an intent that its own has accepted. -/
def MemoryIntentEvent.postInit (step : ℤ) (eventType : EventType) (intent : { m : MemoryIntent // m.Valid })
    (reason : Option String) (latencyUs : Option ℤ) : Except Failure MemoryIntentEvent :=
  if hstep : step < 0 then
    .error (.valueError "step must be >= 0")
  else if hlatency : ∀ l ∈ latencyUs, 0 ≤ l then
    .ok {
      step := step
      eventType := eventType
      intent := intent
      reason := reason
      latencyUs := latencyUs
      step_nonneg := nonneg_of_not_neg hstep
      latencyUs_nonneg := hlatency
      intent_valid := intent.property }
  else
    .error (.valueError "latency_us must be >= 0 when provided")

/-- The constructor accepts the fields of an event. -/
theorem MemoryIntentEvent.postInit_eq (e : MemoryIntentEvent) :
    MemoryIntentEvent.postInit e.step e.eventType ⟨e.intent, e.intent_valid⟩ e.reason e.latencyUs = .ok e := by
  rw [MemoryIntentEvent.postInit, dif_neg (not_lt.mpr e.step_nonneg), dif_pos e.latencyUs_nonneg]

/-- The constructor stores what it is given. -/
theorem MemoryIntentEvent.postInit_ok {step : ℤ} {eventType : EventType}
    {intent : { m : MemoryIntent // m.Valid }} {reason : Option String} {latencyUs : Option ℤ}
    {e : MemoryIntentEvent} (h : MemoryIntentEvent.postInit step eventType intent reason latencyUs = .ok e) :
    e.step = step ∧ e.eventType = eventType ∧ e.intent = intent := by
  unfold MemoryIntentEvent.postInit at h
  split at h
  · cases h
  · split at h
    · cases h
      exact ⟨rfl, rfl, rfl⟩
    · cases h

/-- Without a latency only the step is checked. -/
theorem MemoryIntentEvent.postInit_total {step : ℤ} (hstep : 0 ≤ step) (eventType : EventType)
    (intent : { m : MemoryIntent // m.Valid }) (reason : Option String) :
    ∃ e, MemoryIntentEvent.postInit step eventType intent reason none = .ok e ∧ e.step = step ∧
      e.eventType = eventType ∧ e.intent = intent := by
  obtain ⟨e, he⟩ : ∃ e, MemoryIntentEvent.postInit step eventType intent reason none = .ok e :=
    ⟨_, by rw [MemoryIntentEvent.postInit, dif_neg (not_lt.mpr hstep), dif_pos (by simp)]⟩
  exact ⟨e, he, MemoryIntentEvent.postInit_ok he⟩

/-- The object an event names. -/
def MemoryIntentEvent.objectId (e : MemoryIntentEvent) : String := e.intent.objectId

/-! ## Sample events -/

/-- A warm cache block of ten bytes. -/
def sampleIntent (objectId : String) (allowedTiers : Finset Tier) (currentTier : Tier) :
    MemoryIntent where
  objectId := objectId
  requestId := "req"
  blockId := 0
  objectType := .kvCache
  phase := .prefill
  priority := .warm
  allowedTiers := allowedTiers
  currentTier := currentTier
  sizeBytes := 10

theorem sampleIntent_valid : (sampleIntent "a" {.hbm, .dram} .hbm).Valid := by
  decide +kernel

/-- An event with a given intent. An intent that its constructor would refuse
gives way to a sample one, so that traces are written down without proofs. -/
def sampleEvent (step : ℕ) (eventType : EventType) (intent : MemoryIntent) : MemoryIntentEvent where
  step := step
  eventType := eventType
  intent := if intent.Valid then intent else sampleIntent "a" {.hbm, .dram} .hbm
  step_nonneg := Int.natCast_nonneg step
  latencyUs_nonneg := by simp
  intent_valid := by
    split
    · assumption
    · exact sampleIntent_valid

end KVMemoryIntent
