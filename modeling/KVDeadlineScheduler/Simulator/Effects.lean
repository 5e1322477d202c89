-- SUMMARY: What one event does to the simulator: a rule for each way an event can go, and the decay pass after it.
import KVDeadlineScheduler.Simulator.Capacity

/-!
# Effects of an event

`Dispatched` has one rule for each way the dispatch on an event can go, with the
state it leaves and the latency it charges. It is the inversion of the ten
branches of `run`: facts about an event are proved by cases on it. `Settled`
describes the decay pass and the bookkeeping that follow.
-/

namespace KVMemoryIntent

namespace KVMemorySimulator

variable {sim : KVMemorySimulator} {order : SetOrder} {s s' t : SimulatorState}
  {e : MemoryIntentEvent} {latency : ℤ}

/-! ## Blocks and states written by an event -/

/-- The block an access stores. -/
def accessedBlock (s : SimulatorState) (e : MemoryIntentEvent) : MemoryIntent :=
  touch ((s.liveBlocks.get? e.objectId).getD e.intent) e.intent e.step

/-- The block a mark or a commit stores in place of a live one. -/
def annotate (e : MemoryIntentEvent) (existing : MemoryIntent) : MemoryIntent :=
  match e.eventType with
  | .markedDecodeCritical => markDecodeCritical existing e.intent
  | .markedCold => markCold existing e.intent
  | .committed => { existing with isCommitted := true, isDraft := false }
  | _ => existing

@[simp] theorem annotate_objectId (e : MemoryIntentEvent) (existing : MemoryIntent) :
    (annotate e existing).objectId = existing.objectId := by
  unfold annotate
  split <;> rfl

@[simp] theorem annotate_sizeBytes (e : MemoryIntentEvent) (existing : MemoryIntent) :
    (annotate e existing).sizeBytes = existing.sizeBytes := by
  unfold annotate
  split <;> rfl

@[simp] theorem annotate_allowedTiers (e : MemoryIntentEvent) (existing : MemoryIntent) :
    (annotate e existing).allowedTiers = existing.allowedTiers := by
  unfold annotate
  split <;> rfl

@[simp] theorem annotate_currentTier (e : MemoryIntentEvent) (existing : MemoryIntent) :
    (annotate e existing).currentTier = existing.currentTier := by
  unfold annotate
  split <;> rfl

@[simp] theorem annotate_lastAccessStep (e : MemoryIntentEvent) (existing : MemoryIntent) :
    (annotate e existing).lastAccessStep = existing.lastAccessStep := by
  unfold annotate
  split <;> rfl

/-- The block a decode-critical mark stores under an unknown id. -/
def markedUnknownBlock (e : MemoryIntentEvent) : MemoryIntent :=
  { e.intent with priority := .decodeCritical, pinRequested := true }

/-- The event's block is stored and nothing else changes. -/
def storeBlock (s : SimulatorState) (e : MemoryIntentEvent) (block : MemoryIntent) : SimulatorState :=
  { s with liveBlocks := s.liveBlocks.set e.objectId block }

def allocatedInHbm (s : SimulatorState) (e : MemoryIntentEvent) : SimulatorState :=
  { storeAllocated s e.intent with hbmBlocks := insert e.objectId s.hbmBlocks }

def allocatedInDram (s : SimulatorState) (e : MemoryIntentEvent) : SimulatorState :=
  { storeAllocated s e.intent with dramBlocks := insert e.objectId s.dramBlocks }

/-- A missed block, once it is in HBM and before the capacity is enforced. -/
def missedInHbm (s : SimulatorState) (e : MemoryIntentEvent) : SimulatorState :=
  placeInHbm (recordMiss (storeBlock s e (accessedBlock s e)) (accessedBlock s e)) (accessedBlock s e)

/-- A prefetched block, once it is in HBM and before the capacity is enforced. -/
def prefetchedInHbm (s : SimulatorState) (e : MemoryIntentEvent) : SimulatorState :=
  placeInHbm { storeBlock s e e.intent with prefetchCount := s.prefetchCount + 1 } e.intent

/-- The policy accepts the event as a prefetch. -/
def Prefetches (sim : KVMemorySimulator) (s : SimulatorState) (e : MemoryIntentEvent) : Prop :=
  e.eventType = .prefetched ∧ s.liveBlocks.get? e.objectId ≠ none ∧ e.objectId ∉ s.hbmBlocks ∧
    sim.policy.shouldPrefetch e.intent e.step = true

instance : Decidable (Prefetches sim s e) := inferInstanceAs (Decidable (_ ∧ _))

/-! ## The rules -/

/-- Events that change neither the stores nor the counters. -/
inductive Ignored (s : SimulatorState) (e : MemoryIntentEvent) : Prop where
  | miss (htype : e.eventType = .miss)
  | unknown (htype : e.eventType = .markedCold ∨ e.eventType = .committed ∨ e.eventType = .spilled ∨
      e.eventType = .prefetched ∨ e.eventType = .evicted)
      (hget : s.liveBlocks.get? e.objectId = none)
  | spillDenied (htype : e.eventType = .spilled) {existing : MemoryIntent}
      (hget : s.liveBlocks.get? e.objectId = some existing) (hdenied : .dram ∉ existing.allowedTiers)
  | resident (htype : e.eventType = .prefetched) (hin : e.objectId ∈ s.hbmBlocks)

/-- The ways an event can go. Each displacement the capacity loop makes on its
behalf meets `C`. -/
inductive Dispatched (sim : KVMemorySimulator) (order : SetOrder)
    (C : SimulatorState → MemoryIntent → Prop) (s : SimulatorState) (e : MemoryIntentEvent) :
    SimulatorState → ℤ → Prop where
  | allocatedHbm {t : SimulatorState} {latency : ℤ} (htype : e.eventType = .allocated)
      (htier : e.intent.currentTier = .hbm)
      (hrun : CapacityRun sim order e.step C (allocatedInHbm s e) latency t) :
      Dispatched sim order C s e t.recordUsage latency
  | allocatedDram (htype : e.eventType = .allocated) (htier : e.intent.currentTier = .dram) :
      Dispatched sim order C s e (allocatedInDram s e).recordUsage 0
  | allocatedOther (htype : e.eventType = .allocated) (hhbm : e.intent.currentTier ≠ .hbm)
      (hdram : e.intent.currentTier ≠ .dram) :
      Dispatched sim order C s e (storeAllocated s e.intent).recordUsage 0
  | hit (htype : e.eventType = .accessed) (hin : e.objectId ∈ s.hbmBlocks)
      (hvalid : (accessedBlock s e).Valid) :
      Dispatched sim order C s e (storeBlock s e (accessedBlock s e)).recordUsage 0
  | miss {t : SimulatorState} {latency : ℤ} (htype : e.eventType = .accessed)
      (hout : e.objectId ∉ s.hbmBlocks) (hvalid : (accessedBlock s e).Valid)
      (hrun : CapacityRun sim order e.step C (missedInHbm s e) latency t) :
      Dispatched sim order C s e t.recordUsage (sim.missPenaltyUs + latency)
  | markedUnknown (htype : e.eventType = .markedDecodeCritical)
      (hget : s.liveBlocks.get? e.objectId = none) :
      Dispatched sim order C s e (storeBlock s e (markedUnknownBlock e)) 0
  | annotated {existing : MemoryIntent} (htype : e.eventType = .markedDecodeCritical ∨
      e.eventType = .markedCold ∨ e.eventType = .committed)
      (hget : s.liveBlocks.get? e.objectId = some existing) (hvalid : (annotate e existing).Valid) :
      Dispatched sim order C s e (storeBlock s e (annotate e existing)) 0
  | spilled {existing : MemoryIntent} (htype : e.eventType = .spilled)
      (hget : s.liveBlocks.get? e.objectId = some existing) (hallowed : .dram ∈ existing.allowedTiers) :
      Dispatched sim order C s e (storeSpilled s { existing with currentTier := .dram })
        sim.spillLatencyUs
  | prefetchDeclined {existing : MemoryIntent} (htype : e.eventType = .prefetched)
      (hget : s.liveBlocks.get? e.objectId = some existing) (hout : e.objectId ∉ s.hbmBlocks)
      (hdeclined : sim.policy.shouldPrefetch e.intent e.step = false) :
      Dispatched sim order C s e (storeBlock s e e.intent) 0
  | prefetched {t : SimulatorState} {latency : ℤ} (haccepted : Prefetches sim s e)
      (hrun : CapacityRun sim order e.step C (prefetchedInHbm s e) latency t) :
      Dispatched sim order C s e
        (sim.logDecision t.recordUsage e.step .prefetch e.intent (sim.prefetchReason e.intent) false)
        (sim.prefetchLatencyUs + latency)
  | evicted {existing : MemoryIntent} (htype : e.eventType = .evicted)
      (hget : s.liveBlocks.get? e.objectId = some existing) :
      Dispatched sim order C s e (storeEvicted s existing) 0
  | freed (htype : e.eventType = .freed) : Dispatched sim order C s e (runFreed s e.intent) 0
  | unchanged (hignored : Ignored s e) : Dispatched sim order C s e s 0

/-- The state in which the event enters the capacity loop, if it does. -/
def capacityEntry (sim : KVMemorySimulator) (s : SimulatorState) (e : MemoryIntentEvent) :
    Option SimulatorState :=
  match e.eventType with
  | .allocated => if e.intent.currentTier = .hbm then some (allocatedInHbm s e) else none
  | .accessed => if e.objectId ∈ s.hbmBlocks then none else some (missedInHbm s e)
  | .prefetched =>
    match s.liveBlocks.get? e.objectId with
    | none => none
    | some _ =>
      if e.objectId ∉ s.hbmBlocks ∧ sim.policy.shouldPrefetch e.intent e.step = true then
        some (prefetchedInHbm s e)
      else none
  | _ => none

/-- Every displacement made on behalf of the event meets `C`. -/
def VictimsMeet (sim : KVMemorySimulator) (order : SetOrder)
    (C : SimulatorState → MemoryIntent → Prop) (s : SimulatorState) (e : MemoryIntentEvent) : Prop :=
  ∀ t ∈ capacityEntry sim s e, EachVictim sim order C e.step (capacityFuel t) t

instance VictimsMeet.decidable (C : SimulatorState → MemoryIntent → Prop)
    [∀ s victim, Decidable (C s victim)] : Decidable (VictimsMeet sim order C s e) := by
  unfold VictimsMeet
  cases capacityEntry sim s e with
  | none => exact .isTrue (by simp)
  | some t => exact decidable_of_iff (EachVictim sim order C e.step (capacityFuel t) t) (by simp)

theorem victimsMeet_true : VictimsMeet sim order (fun _ _ => True) s e :=
  fun _ _ => eachVictim_true _ _

/-- The decay pass, the record of its step and the event's latency. -/
structure Settled (sim : KVMemorySimulator) (e : MemoryIntentEvent) (latency : ℤ)
    (t s' : SimulatorState) : Prop where
  aged : t.LiveRel SimulatorState.Aged s'
  valid : e.step ≠ t.lastDecayStep → ∀ id b, s'.liveBlocks.get? id = some b → b.Valid
  eq : s' = { t with
    liveBlocks := s'.liveBlocks
    lastDecayStep := e.step
    latencies := t.latencies ++ [sim.baseStepLatencyUs + latency] }

/-! ## The merged intent -/

/-- On most event types the merge replaces the stored block by the event's. -/
theorem mergeIncoming_all (hs : s.Consistent) (hfields : mergeFields e.eventType = IntentField.all) :
    mergeIncoming e e.intent (s.liveBlocks.get? e.objectId) = .ok e.intent := by
  cases hget : s.liveBlocks.get? e.objectId with
  | none => rfl
  | some existing =>
    have hid : existing.objectId = e.intent.objectId := hs.objectId_eq _ _ hget
    simp only [mergeIncoming, mergeIntent, hfields]
    rw [overwrite_all hid]
    exact e.intent_valid.postInit

theorem intent_eq_of_merge {intent : MemoryIntent} (hs : s.Consistent)
    (hmerge : mergeIncoming e e.intent (s.liveBlocks.get? e.objectId) = .ok intent)
    (hfields : mergeFields e.eventType = IntentField.all) : intent = e.intent := by
  rw [mergeIncoming_all hs hfields] at hmerge
  exact (Except.ok.inj hmerge).symm

/-- A merge keeps the object id. -/
theorem mergeIncoming_objectId {intent : MemoryIntent} (hs : s.Consistent)
    (hmerge : mergeIncoming e e.intent (s.liveBlocks.get? e.objectId) = .ok intent) :
    intent.objectId = e.objectId := by
  cases hget : s.liveBlocks.get? e.objectId with
  | none =>
    rw [hget] at hmerge
    cases hmerge
    rfl
  | some existing =>
    rw [hget] at hmerge
    have hid : existing.objectId = e.objectId := hs.objectId_eq _ _ hget
    rw [(MemoryIntent.postInit_ok hmerge).1]
    exact hid

/-- What is left of the pin rule on a block that takes pin and priority from a
valid intent. -/
theorem pin_of_intent (e : MemoryIntentEvent) :
    (e.intent.pinRequested || decide (e.intent.priority = .decodeCritical)) = e.intent.pinRequested :=
  e.intent_valid.pin_eq

/-- The access writes the same block whether or not the merge came first. -/
theorem touch_merged {intent : MemoryIntent} (htype : e.eventType = .accessed)
    (hmerge : mergeIncoming e e.intent (s.liveBlocks.get? e.objectId) = .ok intent) :
    intent.objectId = ((s.liveBlocks.get? e.objectId).getD e.intent).objectId ∧
      touch ((s.liveBlocks.get? e.objectId).getD intent) intent e.step = accessedBlock s e := by
  unfold accessedBlock
  cases hget : s.liveBlocks.get? e.objectId with
  | none =>
    rw [hget] at hmerge
    cases hmerge
    exact ⟨rfl, rfl⟩
  | some existing =>
    rw [hget] at hmerge
    simp only [mergeIncoming, mergeIntent, htype, overwrite_accessed] at hmerge
    obtain ⟨rfl, -⟩ := MemoryIntent.postInit_ok hmerge
    -- the fields the access takes from the intent are among those the merge overwrote
    refine ⟨rfl, ?_⟩
    simp only [touch, Option.getD_some, pin_of_intent]

/-- A mark or a commit writes the same block whether or not the merge came
first. -/
theorem annotate_markedDecodeCritical {existing intent block : MemoryIntent}
    (htype : e.eventType = .markedDecodeCritical)
    (hmerge : mergeIncoming e e.intent (some existing) = .ok intent)
    (h : (markDecodeCritical existing intent).postInit = .ok block) :
    block = annotate e existing ∧ block.Valid := by
  simp only [mergeIncoming, mergeIntent, htype, overwrite_markedDecodeCritical] at hmerge
  obtain ⟨rfl, -⟩ := MemoryIntent.postInit_ok hmerge
  obtain ⟨rfl, hvalid⟩ := MemoryIntent.postInit_eq h fun _ => rfl
  simp only [annotate, htype]
  exact ⟨rfl, hvalid⟩

theorem annotate_markedCold {existing intent block : MemoryIntent}
    (htype : e.eventType = .markedCold)
    (hmerge : mergeIncoming e e.intent (some existing) = .ok intent)
    (h : (markCold existing intent).postInit = .ok block) :
    block = annotate e existing ∧ block.Valid := by
  simp only [mergeIncoming, mergeIntent, htype, overwrite_markedCold] at hmerge
  obtain ⟨rfl, -⟩ := MemoryIntent.postInit_ok hmerge
  obtain ⟨rfl, hvalid⟩ := MemoryIntent.postInit_eq h fun hp => by cases hp
  simp only [annotate, htype]
  exact ⟨rfl, hvalid⟩

theorem annotate_committed {existing block : MemoryIntent} (htype : e.eventType = .committed)
    (hsound : existing.Sound)
    (h : MemoryIntent.postInit { existing with isCommitted := true, isDraft := false } = .ok block) :
    block = annotate e existing ∧ block.Valid := by
  obtain ⟨rfl, hvalid⟩ := MemoryIntent.postInit_eq h hsound.pinned
  unfold annotate
  rw [htype]
  exact ⟨rfl, hvalid⟩

/-! ## Inversion of the branches -/

@[simp] theorem recordUsage_recordUsage (s : SimulatorState) :
    s.recordUsage.recordUsage = s.recordUsage := by
  have hused : s.recordUsage.hbmUsed = s.hbmUsed := rfl
  unfold SimulatorState.recordUsage at hused ⊢
  simp only [hused, max_assoc, max_self]

section Branches

variable {C : SimulatorState → MemoryIntent → Prop}

theorem capacityRun_of_moveToHbm {block : MemoryIntent} {currentStep : ℤ}
    (hC : EachVictim sim order C currentStep (capacityFuel (placeInHbm s block)) (placeInHbm s block))
    (h : sim.moveToHbm order s block currentStep = .ok (s', latency)) :
    ∃ t, CapacityRun sim order currentStep C (placeInHbm s block) latency t ∧ s' = t.recordUsage := by
  obtain ⟨⟨u, l⟩, hcap, heq⟩ := Replay.bind_eq_ok.mp h
  cases heq
  obtain ⟨t, hrun, rfl⟩ := capacityRun_of_ensure hC hcap
  exact ⟨t, hrun, recordUsage_recordUsage t⟩

theorem runAllocated_ok (htype : e.eventType = .allocated) (hC : VictimsMeet sim order C s e)
    (h : sim.runAllocated order s e.step e.intent = .ok (t, latency)) :
    Dispatched sim order C s e t latency := by
  unfold runAllocated at h
  dsimp only at h
  split at h
  · rename_i htier
    obtain ⟨⟨u, l⟩, hcap, heq⟩ := Replay.bind_eq_ok.mp h
    cases heq
    have hentry : allocatedInHbm s e ∈ capacityEntry sim s e := by
      simp [capacityEntry, htype, htier]
    obtain ⟨v, hrun, rfl⟩ := capacityRun_of_ensure (hC _ hentry) hcap
    rw [recordUsage_recordUsage]
    exact .allocatedHbm htype htier hrun
  · rename_i htier
    cases h
    exact .allocatedDram htype htier
  · rename_i htier
    cases h
    exact .allocatedOther htype (by rw [htier]; decide) (by rw [htier]; decide)
  · rename_i htier
    cases h
    exact .allocatedOther htype (by rw [htier]; decide) (by rw [htier]; decide)

theorem runAccessed_ok {intent : MemoryIntent} (htype : e.eventType = .accessed) (hs : s.Consistent)
    (hC : VictimsMeet sim order C s e)
    (hmerge : mergeIncoming e e.intent (s.liveBlocks.get? e.objectId) = .ok intent)
    (h : sim.runAccessed order s e.step intent = .ok (t, latency)) :
    Dispatched sim order C s e t latency := by
  obtain ⟨hid, htouch⟩ := touch_merged htype hmerge
  have hkey : ((s.liveBlocks.get? e.objectId).getD e.intent).objectId = e.objectId := by
    cases hget : s.liveBlocks.get? e.objectId with
    | none => rfl
    | some existing => exact hs.objectId_eq _ _ hget
  rw [hkey] at hid
  obtain ⟨block, hblock, hrest⟩ := Replay.bind_eq_ok.mp h
  rw [hid, htouch] at hblock
  obtain ⟨rfl, hvalid⟩ := MemoryIntent.postInit_eq hblock e.intent_valid.pinned
  have hobj : (accessedBlock s e).objectId = e.objectId := hkey
  rw [hid] at hrest
  dsimp only at hrest
  split at hrest
  · rename_i hout
    rw [hobj] at hout
    obtain ⟨⟨u, l⟩, hmove, hpair⟩ := Replay.bind_eq_ok.mp hrest
    cases hpair
    have hentry : missedInHbm s e ∈ capacityEntry sim s e := by
      have hn : ¬e.objectId ∈ s.hbmBlocks := hout
      simp [capacityEntry, htype, hn]
    obtain ⟨v, hrun, rfl⟩ := capacityRun_of_moveToHbm (hC _ hentry) hmove
    exact .miss htype hout hvalid hrun
  · rename_i hin
    cases hrest
    rw [hobj, not_not] at hin
    exact .hit htype hin hvalid

theorem runMarkedDecodeCritical_ok {intent : MemoryIntent} (htype : e.eventType = .markedDecodeCritical)
    (hs : s.Consistent)
    (hmerge : mergeIncoming e e.intent (s.liveBlocks.get? e.objectId) = .ok intent)
    (h : runMarkedDecodeCritical s (s.liveBlocks.get? e.objectId) intent = .ok (t, latency)) :
    Dispatched sim order C s e t latency := by
  have hid := mergeIncoming_objectId hs hmerge
  cases hget : s.liveBlocks.get? e.objectId with
  | none =>
    rw [hget] at hmerge
    cases hmerge
    simp only [runMarkedDecodeCritical, hget] at h
    obtain ⟨block, hblock, heq⟩ := Replay.bind_eq_ok.mp h
    obtain ⟨rfl, -⟩ := MemoryIntent.postInit_eq hblock fun _ => rfl
    cases heq
    exact .markedUnknown htype hget
  | some existing =>
    rw [hget] at hmerge
    simp only [runMarkedDecodeCritical, hget] at h
    obtain ⟨block, hblock, heq⟩ := Replay.bind_eq_ok.mp h
    obtain ⟨rfl, hvalid⟩ := annotate_markedDecodeCritical htype hmerge hblock
    cases heq
    rw [hid]
    exact .annotated (.inl htype) hget hvalid

theorem runMarkedCold_ok {intent : MemoryIntent} (htype : e.eventType = .markedCold)
    (hs : s.Consistent)
    (hmerge : mergeIncoming e e.intent (s.liveBlocks.get? e.objectId) = .ok intent)
    (h : runMarkedCold s (s.liveBlocks.get? e.objectId) intent = .ok (t, latency)) :
    Dispatched sim order C s e t latency := by
  have hid := mergeIncoming_objectId hs hmerge
  cases hget : s.liveBlocks.get? e.objectId with
  | none =>
    rw [hget] at h
    cases h
    exact .unchanged (.unknown (.inl htype) hget)
  | some existing =>
    rw [hget] at hmerge h
    obtain ⟨block, hblock, heq⟩ := Replay.bind_eq_ok.mp h
    obtain ⟨rfl, hvalid⟩ := annotate_markedCold htype hmerge hblock
    cases heq
    rw [hid]
    exact .annotated (.inr (.inl htype)) hget hvalid

theorem runCommitted_ok {intent : MemoryIntent} (htype : e.eventType = .committed)
    (hs : s.Consistent)
    (hmerge : mergeIncoming e e.intent (s.liveBlocks.get? e.objectId) = .ok intent)
    (h : runCommitted s (s.liveBlocks.get? e.objectId) intent = .ok (t, latency)) :
    Dispatched sim order C s e t latency := by
  have hid := mergeIncoming_objectId hs hmerge
  cases hget : s.liveBlocks.get? e.objectId with
  | none =>
    rw [hget] at h
    cases h
    exact .unchanged (.unknown (.inr (.inl htype)) hget)
  | some existing =>
    rw [hget] at hmerge h
    obtain ⟨block, hblock, heq⟩ := Replay.bind_eq_ok.mp h
    obtain ⟨rfl, hvalid⟩ := annotate_committed htype (hs.sound _ _ hget) hblock
    cases heq
    rw [hid]
    exact .annotated (.inr (.inr htype)) hget hvalid

theorem runSpilled_ok (htype : e.eventType = .spilled) (hs : s.Consistent)
    (h : sim.runSpilled s (s.liveBlocks.get? e.objectId) = .ok (t, latency)) :
    Dispatched sim order C s e t latency := by
  cases hget : s.liveBlocks.get? e.objectId with
  | none =>
    rw [hget] at h
    cases h
    exact .unchanged (.unknown (.inr (.inr (.inl htype))) hget)
  | some existing =>
    simp only [runSpilled, hget] at h
    split at h
    · rename_i hallowed
      obtain ⟨updated, hupdated, heq⟩ := Replay.bind_eq_ok.mp h
      cases heq
      obtain ⟨rfl, -⟩ := MemoryIntent.postInit_eq hupdated (hs.sound _ _ hget).pinned
      exact .spilled htype hget hallowed
    · rename_i hdenied
      cases h
      exact .unchanged (.spillDenied htype hget hdenied)

theorem runPrefetched_ok (htype : e.eventType = .prefetched) (hs : s.Consistent)
    (hC : VictimsMeet sim order C s e)
    (h : sim.runPrefetched order s e.step (s.liveBlocks.get? e.objectId) e.intent = .ok (t, latency)) :
    Dispatched sim order C s e t latency := by
  cases hget : s.liveBlocks.get? e.objectId with
  | none =>
    rw [hget] at h
    cases h
    exact .unchanged (.unknown (.inr (.inr (.inr (.inl htype)))) hget)
  | some existing =>
    have hid : existing.objectId = e.intent.objectId := hs.objectId_eq _ _ hget
    simp only [runPrefetched, hget, hid] at h
    split at h
    · rename_i hout
      obtain ⟨merged, hmerged, hrest⟩ := Replay.bind_eq_ok.mp h
      rw [mergeIntent, overwrite_all hid, e.intent_valid.postInit] at hmerged
      cases hmerged
      split at hrest
      · rename_i haccept
        obtain ⟨⟨u, l⟩, hmove, heq⟩ := Replay.bind_eq_ok.mp hrest
        cases heq
        have hn : ¬e.objectId ∈ s.hbmBlocks := hout
        have hentry : prefetchedInHbm s e ∈ capacityEntry sim s e := by
          simp [capacityEntry, htype, hget, hn, haccept]
        obtain ⟨v, hrun, rfl⟩ := capacityRun_of_moveToHbm (hC _ hentry) hmove
        exact .prefetched ⟨htype, by simp [hget], hout, haccept⟩ hrun
      · rename_i hdecline
        cases hrest
        exact .prefetchDeclined htype hget hout (by simpa using hdecline)
    · rename_i hin
      cases h
      exact .unchanged (.resident htype (not_not.mp hin))

theorem dispatch_ok {intent : MemoryIntent} (hs : s.Consistent) (hC : VictimsMeet sim order C s e)
    (hmerge : mergeIncoming e e.intent (s.liveBlocks.get? e.objectId) = .ok intent)
    (h : sim.dispatch order s e (s.liveBlocks.get? e.objectId) intent = .ok (t, latency)) :
    Dispatched sim order C s e t latency := by
  have hall : mergeFields e.eventType = IntentField.all → intent = e.intent :=
    intent_eq_of_merge hs hmerge
  unfold dispatch at h
  cases htype : e.eventType with
  | allocated =>
    obtain rfl := hall (by rw [htype]; rfl)
    rw [htype] at h
    exact runAllocated_ok htype hC h
  | accessed =>
    rw [htype] at h
    exact runAccessed_ok htype hs hC hmerge h
  | markedDecodeCritical =>
    rw [htype] at h
    exact runMarkedDecodeCritical_ok htype hs hmerge h
  | markedCold =>
    rw [htype] at h
    exact runMarkedCold_ok htype hs hmerge h
  | committed =>
    rw [htype] at h
    exact runCommitted_ok htype hs hmerge h
  | spilled =>
    rw [htype] at h
    exact runSpilled_ok htype hs h
  | prefetched =>
    obtain rfl := hall (by rw [htype]; rfl)
    rw [htype] at h
    exact runPrefetched_ok htype hs hC h
  | miss =>
    rw [htype] at h
    cases h
    exact .unchanged (.miss htype)
  | evicted =>
    rw [htype] at h
    cases hget : s.liveBlocks.get? e.objectId with
    | none =>
      rw [hget] at h
      cases h
      exact .unchanged (.unknown (.inr (.inr (.inr (.inr htype)))) hget)
    | some existing =>
      rw [hget] at h
      cases h
      exact .evicted htype hget
  | freed =>
    obtain rfl := hall (by rw [htype]; rfl)
    rw [htype] at h
    cases h
    exact .freed htype

end Branches

/-! ## States that store one block -/

/-- `t` has the live blocks of `s` with `block` under the event's id, and no
resident ids beyond those of `s` and the event's. -/
structure Stored (s : SimulatorState) (e : MemoryIntentEvent) (block : MemoryIntent)
    (t : SimulatorState) : Prop where
  objectId : block.objectId = e.objectId
  sound : block.Sound
  liveBlocks : t.liveBlocks = s.liveBlocks.set e.objectId block
  hbm_subset : t.hbmBlocks ⊆ insert e.objectId s.hbmBlocks
  dram_subset : t.dramBlocks ⊆ insert e.objectId s.dramBlocks

theorem Stored.consistent {block : MemoryIntent} (h : Stored s e block t) (hs : s.Consistent) :
    t.Consistent := by
  have hlive : ∀ id, (id = e.objectId ∨ ∃ b, s.liveBlocks.get? id = some b) →
      ∃ b, t.liveBlocks.get? id = some b := by
    intro id hid
    rw [h.liveBlocks, OrderedDict.get?_set]
    split
    · exact ⟨block, rfl⟩
    · rename_i hne
      exact hid.resolve_left hne
  have hblock : ∀ id b, t.liveBlocks.get? id = some b → b.objectId = id ∧ b.Sound := by
    intro id b hb
    rw [h.liveBlocks, OrderedDict.get?_set] at hb
    split at hb
    · rename_i heq
      cases hb
      exact ⟨h.objectId.trans heq.symm, h.sound⟩
    · exact ⟨hs.objectId_eq id b hb, hs.sound id b hb⟩
  refine ⟨fun id hin => hlive id ?_, fun id hin => hlive id ?_, fun id b hb => (hblock id b hb).1,
    fun id b hb => (hblock id b hb).2⟩
  · exact (Finset.mem_insert.mp (h.hbm_subset hin)).imp_right (hs.hbm_live id)
  · exact (Finset.mem_insert.mp (h.dram_subset hin)).imp_right (hs.dram_live id)

theorem stored_storeBlock {block : MemoryIntent} (hid : block.objectId = e.objectId)
    (hsound : block.Sound) : Stored s e block (storeBlock s e block) :=
  ⟨hid, hsound, rfl, Finset.subset_insert _ _, Finset.subset_insert _ _⟩

theorem stored_allocatedInHbm : Stored s e e.intent (allocatedInHbm s e) :=
  ⟨rfl, e.intent_valid.toSound, rfl, Finset.Subset.refl _, Finset.subset_insert _ _⟩

theorem stored_allocatedInDram : Stored s e e.intent (allocatedInDram s e) :=
  ⟨rfl, e.intent_valid.toSound, rfl, Finset.subset_insert _ _, Finset.Subset.refl _⟩

theorem stored_storeAllocated : Stored s e e.intent (storeAllocated s e.intent) :=
  ⟨rfl, e.intent_valid.toSound, rfl, Finset.subset_insert _ _, Finset.subset_insert _ _⟩

theorem accessedBlock_objectId (hs : s.Consistent) : (accessedBlock s e).objectId = e.objectId := by
  unfold accessedBlock touch
  cases hget : s.liveBlocks.get? e.objectId with
  | none => rfl
  | some existing =>
    have hid : existing.objectId = e.objectId := hs.objectId_eq _ _ hget
    exact hid

theorem missedInHbm_hbmBlocks (hs : s.Consistent) :
    (missedInHbm s e).hbmBlocks = insert e.objectId s.hbmBlocks := by
  rw [← accessedBlock_objectId hs]
  rfl

theorem missedInHbm_dramBlocks (hs : s.Consistent) :
    (missedInHbm s e).dramBlocks = s.dramBlocks.erase e.objectId := by
  rw [← accessedBlock_objectId hs]
  rfl

theorem accessedBlock_sound (hs : s.Consistent) : (accessedBlock s e).Sound := by
  have hstored : ((s.liveBlocks.get? e.objectId).getD e.intent).Sound := by
    cases hget : s.liveBlocks.get? e.objectId with
    | none => exact e.intent_valid.toSound
    | some existing => exact hs.sound _ _ hget
  have hrecency := e.intent_valid.recencyScore_range.2
  exact { hstored with
    recencyScore_range := ⟨le_max_of_le_right zero_le_one, max_le hrecency le_rfl⟩
    pinned := e.intent_valid.pinned }

theorem stored_missedInHbm (hs : s.Consistent) :
    Stored s e { accessedBlock s e with currentTier := .hbm } (missedInHbm s e) := by
  have hid := accessedBlock_objectId (e := e) hs
  refine ⟨hid, SimulatorState.Retiered.sound _ _ ⟨_, rfl⟩ (accessedBlock_sound hs), ?_,
    (missedInHbm_hbmBlocks hs).subset, ?_⟩
  · unfold missedInHbm placeInHbm recordMiss storeBlock
    simp only [hid, OrderedDict.set_set]
  · exact (Finset.erase_subset _ _).trans (Finset.subset_insert _ _)

theorem stored_prefetchedInHbm :
    Stored s e { e.intent with currentTier := .hbm } (prefetchedInHbm s e) := by
  refine ⟨rfl, SimulatorState.Retiered.sound _ _ ⟨_, rfl⟩ e.intent_valid.toSound, ?_,
    Finset.Subset.refl _, (Finset.erase_subset _ _).trans (Finset.subset_insert _ _)⟩
  exact OrderedDict.set_set ..

theorem stored_spilled {existing : MemoryIntent} (hs : s.Consistent)
    (hget : s.liveBlocks.get? e.objectId = some existing) :
    Stored s e { existing with currentTier := .dram }
      (storeSpilled s { existing with currentTier := .dram }) := by
  have hid : existing.objectId = e.objectId := hs.objectId_eq _ _ hget
  refine ⟨hid, SimulatorState.Retiered.sound _ _ ⟨_, rfl⟩ (hs.sound _ _ hget), ?_, ?_, ?_⟩
  · simp only [storeSpilled, hid]
  · exact (Finset.erase_subset _ _).trans (Finset.subset_insert _ _)
  · simp only [storeSpilled, hid, subset_refl]

theorem markedUnknownBlock_sound (e : MemoryIntentEvent) : (markedUnknownBlock e).Sound :=
  { e.intent_valid.toSound with pinned := fun _ => rfl }

theorem stored_markedUnknown : Stored s e (markedUnknownBlock e) (storeBlock s e (markedUnknownBlock e)) :=
  stored_storeBlock (show (markedUnknownBlock e).objectId = e.objectId from rfl) (markedUnknownBlock_sound e)

/-! ## Events keep the stores consistent -/

theorem storeEvicted_consistent {existing : MemoryIntent} (hs : s.Consistent) :
    (storeEvicted s existing).Consistent where
  hbm_live id hin := hs.hbm_live id (Finset.mem_of_mem_erase hin)
  dram_live id hin := hs.dram_live id (Finset.mem_of_mem_erase hin)
  objectId_eq := hs.objectId_eq
  sound := hs.sound

/-- What is live after a free was live before, under another id. -/
theorem get?_of_runFreed {intent b : MemoryIntent} {id : String}
    (hb : (runFreed s intent).liveBlocks.get? id = some b) :
    id ≠ intent.objectId ∧ s.liveBlocks.get? id = some b := by
  unfold runFreed at hb
  rw [OrderedDict.get?_erase] at hb
  split at hb
  · cases hb
  · rename_i hne
    exact ⟨hne, hb⟩

theorem runFreed_consistent {intent : MemoryIntent} (hs : s.Consistent) :
    (runFreed s intent).Consistent := by
  have hlive : ∀ ids : Finset String, (∀ id ∈ ids, ∃ b, s.liveBlocks.get? id = some b) →
      ∀ id ∈ ids.erase intent.objectId, ∃ b, (runFreed s intent).liveBlocks.get? id = some b := by
    intro ids hids id hin
    obtain ⟨hne, hmem⟩ := Finset.mem_erase.mp hin
    obtain ⟨b, hb⟩ := hids id hmem
    exact ⟨b, (OrderedDict.get?_erase_of_ne _ hne).trans hb⟩
  exact ⟨hlive _ hs.hbm_live, hlive _ hs.dram_live,
    fun id b hb => hs.objectId_eq id b (get?_of_runFreed hb).2,
    fun id b hb => hs.sound id b (get?_of_runFreed hb).2⟩

theorem capacityEntry_consistent (hs : s.Consistent) (ht : t ∈ capacityEntry sim s e) :
    t.Consistent := by
  unfold capacityEntry at ht
  split at ht
  · split at ht
    · exact Option.some.inj ht ▸ stored_allocatedInHbm.consistent hs
    · cases ht
  · split at ht
    · cases ht
    · exact Option.some.inj ht ▸ (stored_missedInHbm hs).consistent hs
  · split at ht
    · cases ht
    · split at ht
      · exact Option.some.inj ht ▸ stored_prefetchedInHbm.consistent hs
      · cases ht
  · cases ht

/-- What holds of every displacement from a consistent state holds of every
displacement an event makes. -/
theorem victimsMeet_of_displace {C : SimulatorState → MemoryIntent → Prop}
    (himp : ∀ s victim, s.Consistent → sim.checkCapacity order s e.step = .displace victim →
      C s victim) (hs : s.Consistent) : VictimsMeet sim order C s e :=
  fun _ ht => eachVictim_of_displace himp _ (capacityEntry_consistent hs ht)

theorem Dispatched.consistent {C : SimulatorState → MemoryIntent → Prop}
    (h : Dispatched sim order C s e t latency) (hs : s.Consistent) : t.Consistent := by
  cases h with
  | allocatedHbm _ _ hrun =>
    have hentry := (stored_allocatedInHbm (s := s) (e := e)).consistent hs
    exact ((hrun.frame hentry).consistent hentry).congr rfl rfl rfl
  | allocatedDram => exact (stored_allocatedInDram.consistent hs).congr rfl rfl rfl
  | allocatedOther => exact (stored_storeAllocated.consistent hs).congr rfl rfl rfl
  | hit _ _ hvalid =>
    have hstored := stored_storeBlock (s := s) (accessedBlock_objectId hs) hvalid.toSound
    exact (hstored.consistent hs).congr rfl rfl rfl
  | miss _ _ _ hrun =>
    have hentry := (stored_missedInHbm (s := s) (e := e) hs).consistent hs
    exact ((hrun.frame hentry).consistent hentry).congr rfl rfl rfl
  | markedUnknown =>
    exact stored_markedUnknown.consistent hs
  | annotated _ hget hvalid =>
    have hid := (annotate_objectId e _).trans (hs.objectId_eq _ _ hget)
    exact (stored_storeBlock hid hvalid.toSound).consistent hs
  | spilled _ hget => exact (stored_spilled hs hget).consistent hs
  | prefetchDeclined => exact (stored_storeBlock rfl e.intent_valid.toSound).consistent hs
  | prefetched _ hrun =>
    have hentry := (stored_prefetchedInHbm (s := s) (e := e)).consistent hs
    exact ((hrun.frame hentry).consistent hentry).congr rfl rfl rfl
  | evicted => exact storeEvicted_consistent hs
  | freed => exact runFreed_consistent hs
  | unchanged => exact hs

theorem Dispatched.latencies {C : SimulatorState → MemoryIntent → Prop}
    (h : Dispatched sim order C s e t latency) (hs : s.Consistent) : t.latencies = s.latencies := by
  cases h with
  | allocatedHbm _ _ hrun => exact (hrun.frame (stored_allocatedInHbm.consistent hs)).latencies
  | miss _ _ _ hrun => exact (hrun.frame ((stored_missedInHbm hs).consistent hs)).latencies
  | prefetched _ hrun => exact (hrun.frame (stored_prefetchedInHbm.consistent hs)).latencies
  | _ => rfl

/-! ## Misses -/

/-- The event is an access to a block outside HBM. -/
def Misses (s : SimulatorState) (e : MemoryIntentEvent) : Prop :=
  e.eventType = .accessed ∧ e.objectId ∉ s.hbmBlocks

instance : Decidable (Misses s e) := inferInstanceAs (Decidable (_ ∧ _))

/-- An ignored event is no access. -/
theorem Ignored.not_accessed (h : Ignored s e) : e.eventType ≠ .accessed := by
  cases h with
  | miss htype => simp [htype]
  | unknown htype => rcases htype with htype | htype | htype | htype | htype <;> simp [htype]
  | spillDenied htype => simp [htype]
  | resident htype => simp [htype]

/-- A miss counts once, and once more when the access is decode-critical. -/
theorem Dispatched.count_miss {C : SimulatorState → MemoryIntent → Prop}
    (h : Dispatched sim order C s e t latency) (hs : s.Consistent) (hmisses : Misses s e) :
    t.missCount = s.missCount + 1 ∧ t.decodeCriticalMisses =
      if e.intent.isDecodeCritical then s.decodeCriticalMisses + 1 else s.decodeCriticalMisses := by
  obtain ⟨haccessed, hout⟩ := hmisses
  cases h with
  | hit _ hin => exact absurd hin hout
  | miss _ _ _ hrun =>
    have hframe := hrun.frame ((stored_missedInHbm hs).consistent hs)
    exact ⟨hframe.missCount, hframe.decodeCriticalMisses⟩
  | annotated htype => rcases htype with htype | htype | htype <;> simp [htype] at haccessed
  | prefetched haccepted => simp [haccepted.1] at haccessed
  | unchanged hignored => exact absurd haccessed hignored.not_accessed
  | allocatedHbm htype => simp [htype] at haccessed
  | allocatedDram htype => simp [htype] at haccessed
  | allocatedOther htype => simp [htype] at haccessed
  | markedUnknown htype => simp [htype] at haccessed
  | spilled htype => simp [htype] at haccessed
  | prefetchDeclined htype => simp [htype] at haccessed
  | evicted htype => simp [htype] at haccessed
  | freed htype => simp [htype] at haccessed

/-- Other events count no miss. -/
theorem Dispatched.count_no_miss {C : SimulatorState → MemoryIntent → Prop}
    (h : Dispatched sim order C s e t latency) (hs : s.Consistent) (hmisses : ¬Misses s e) :
    t.missCount = s.missCount ∧ t.decodeCriticalMisses = s.decodeCriticalMisses := by
  cases h with
  | allocatedHbm _ _ hrun =>
    have hframe := hrun.frame (stored_allocatedInHbm.consistent hs)
    exact ⟨hframe.missCount, hframe.decodeCriticalMisses⟩
  | miss htype hout => exact absurd ⟨htype, hout⟩ hmisses
  | prefetched _ hrun =>
    have hframe := hrun.frame (stored_prefetchedInHbm.consistent hs)
    exact ⟨hframe.missCount, hframe.decodeCriticalMisses⟩
  | _ => exact ⟨rfl, rfl⟩

/-! ## The decay pass -/

theorem decayBlock_ok {b b' : MemoryIntent} (hb : b.Sound) (h : decayBlock b = .ok b') :
    SimulatorState.Aged b b' ∧ b'.Valid := by
  obtain ⟨rfl, hvalid⟩ := MemoryIntent.postInit_eq h hb.pinned
  exact ⟨⟨_, hvalid.recencyScore_range, rfl⟩, hvalid⟩

theorem settled_of_decay {u : SimulatorState} (ht : t.Consistent)
    (h : decayRecency t e.step = .ok u)
    (heq : s' = { u with latencies := u.latencies ++ [sim.baseStepLatencyUs + latency] }) :
    Settled sim e latency t s' := by
  unfold decayRecency at h
  split at h
  · obtain ⟨live, hlive, hu⟩ := Replay.bind_eq_ok.mp h
    cases hu
    subst heq
    refine ⟨fun id => ?_, fun _ id b' hb' => ?_, rfl⟩
    · obtain ⟨hnone, hsome⟩ := OrderedDict.traverse_get? hlive id
      refine ⟨hnone, fun b hb => ?_⟩
      obtain ⟨b', hdecay, hb'⟩ := hsome b hb
      exact ⟨b', hb', (decayBlock_ok (ht.sound id b hb) hdecay).1⟩
    · obtain ⟨b, hb, hdecay⟩ := OrderedDict.traverse_get?_some hlive hb'
      exact (decayBlock_ok (ht.sound id b hb) hdecay).2
  · -- another event of a step that has decayed already
    rename_i hstep
    cases h
    subst heq
    rw [not_not] at hstep
    refine ⟨fun id => ⟨fun hn => hn, fun b hb => ?_⟩, fun hne => absurd hstep hne, ?_⟩
    · exact ⟨b, hb, .of_sound (ht.sound id b hb)⟩
    · rw [hstep]

theorem Settled.consistent (h : Settled sim e latency t s') (ht : t.Consistent) : s'.Consistent := by
  refine h.aged.consistent SimulatorState.Aged.objectId SimulatorState.Aged.sound ht ?_ ?_
  · rw [h.eq]
    exact ht.hbm_live
  · rw [h.eq]
    exact ht.dram_live

/-- The decay pass changes no sizes. -/
theorem Settled.usedBytes_eq (h : Settled sim e latency t s') (ids : Finset String) :
    s'.usedBytes ids = t.usedBytes ids :=
  SimulatorState.usedBytes_congr fun id _ => h.aged.sizeOf_eq SimulatorState.Aged.sizeBytes id

theorem Settled.hbmBlocks (h : Settled sim e latency t s') : s'.hbmBlocks = t.hbmBlocks := by
  rw [h.eq]

theorem Settled.dramBlocks (h : Settled sim e latency t s') : s'.dramBlocks = t.dramBlocks := by
  rw [h.eq]

theorem Settled.hbmUsed_eq (h : Settled sim e latency t s') : s'.hbmUsed = t.hbmUsed := by
  unfold SimulatorState.hbmUsed
  rw [h.usedBytes_eq, h.hbmBlocks]

/-! ## Events -/

/-- An event dispatches, then the decay pass runs. -/
theorem runEvent_dispatched {C : SimulatorState → MemoryIntent → Prop} (hs : s.Consistent)
    (hC : VictimsMeet sim order C s e) (h : sim.runEvent order s e = .ok s') :
    ∃ t latency u, Dispatched sim order C s e t latency ∧ decayRecency t e.step = .ok u ∧
      s' = { u with latencies := u.latencies ++ [sim.baseStepLatencyUs + latency] } := by
  -- the intent of an event is valid, so its copy is the intent itself
  obtain ⟨incoming, hcopy, h⟩ := Replay.bind_eq_ok.mp h
  rw [MemoryIntent.copyWith, e.intent_valid.postInit] at hcopy
  cases hcopy
  obtain ⟨intent, hmerge, h⟩ := Replay.bind_eq_ok.mp h
  obtain ⟨⟨t, latency⟩, hdispatch, h⟩ := Replay.bind_eq_ok.mp h
  obtain ⟨u, hdecay, h⟩ := Replay.bind_eq_ok.mp h
  exact ⟨t, latency, u, dispatch_ok hs hC hmerge hdispatch, hdecay, (Except.ok.inj h).symm⟩

/-- An event dispatches and settles. -/
theorem runEvent_ok {C : SimulatorState → MemoryIntent → Prop} (hs : s.Consistent)
    (hC : VictimsMeet sim order C s e) (h : sim.runEvent order s e = .ok s') :
    ∃ t latency, Dispatched sim order C s e t latency ∧ t.Consistent ∧ Settled sim e latency t s' := by
  obtain ⟨t, latency, u, hd, hdecay, heq⟩ := runEvent_dispatched hs hC h
  exact ⟨t, latency, hd, hd.consistent hs, settled_of_decay (hd.consistent hs) hdecay heq⟩

theorem runEvent_consistent (hs : s.Consistent) (h : sim.runEvent order s e = .ok s') :
    s'.Consistent := by
  obtain ⟨t, latency, -, ht, hsettled⟩ := runEvent_ok hs victimsMeet_true h
  exact hsettled.consistent ht

/-- Every state a replay reaches is consistent. -/
theorem replay_consistent {events : List MemoryIntentEvent} (hs : s.Consistent)
    (h : sim.replay order s events = .ok s') : s'.Consistent :=
  Replay.run_always (fun _ _ _ => runEvent_consistent) hs h

/-- The invariant rule for replays: what every event keeps from a consistent state,
under a condition its step meets, holds after every part of a replay that meets it. -/
theorem replay_invariant {P : SimulatorState → Prop} {C : SimulatorState → MemoryIntentEvent → Prop}
    {events pre : List MemoryIntentEvent} (hinitial : P SimulatorState.initial)
    (hstep : ∀ s e s', s.Consistent → P s → C s e → sim.runEvent order s e = .ok s' → P s')
    (hC : Replay.Meets (sim.runEvent order) C SimulatorState.initial events) (hpre : pre <+: events)
    (h : sim.replay order SimulatorState.initial pre = .ok s) : P s := by
  have hrun : s.Consistent ∧ P s := by
    refine Replay.run_invariant (P := fun s => s.Consistent ∧ P s) ?_
      ⟨SimulatorState.consistent_initial, hinitial⟩ (hC.restrict hpre) h
    rintro s e s' ⟨hs, hP⟩ hC hrun
    exact ⟨runEvent_consistent hs hrun, hstep s e s' hs hP hC hrun⟩
  exact hrun.2

/-! ## Runs -/

/-- What is reported of the last state of a run, with the percentiles as quantiles. -/
def report (sim : KVMemorySimulator) (s : SimulatorState) (events : List MemoryIntentEvent) :
    SimulationResult where
  policyName := sim.policy.name
  totalBlocks := (events.map MemoryIntentEvent.objectId).toFinset.card
  totalSteps := (events.map MemoryIntentEvent.step).foldl max (-1) + 1
  hbmCapacityBytes := sim.hbmCapacityBytes
  dramCapacityBytes := sim.dramCapacityBytes
  peakHbmDemandBytes := s.peakHbmDemandBytes
  actualPeakHbmUsedBytes := s.actualPeakHbmUsedBytes
  hbmBytesSaved := max (s.peakHbmDemandBytes - s.actualPeakHbmUsedBytes) 0
  capacityExhaustionEvents := s.capacityExhaustionEvents
  pinnedCapacityExhaustionEvents := s.pinnedCapacityExhaustionEvents
  spillCount := s.spillCount
  prefetchCount := s.prefetchCount
  missCount := s.missCount
  evictionCount := s.evictionCount
  totalLatencyUs := s.latencies.sum
  p50LatencyUs := Quantile.quantile 0 (s.latencies.map fun l => (l : ℚ)) (50 / 100)
  p95LatencyUs := Quantile.quantile 0 (s.latencies.map fun l => (l : ℚ)) (95 / 100)
  p99LatencyUs := Quantile.quantile 0 (s.latencies.map fun l => (l : ℚ)) (99 / 100)
  decodeCriticalMisses := s.decodeCriticalMisses
  decodeCriticalMissRate := min ((s.decodeCriticalMisses : ℚ) /
    max (events.map MemoryIntentEvent.objectId).toFinset.card 1) 1
  decodeCriticalEvictions := s.decodeCriticalEvictions
  finalHbmUsedBytes := s.hbmUsed
  finalDramUsedBytes := s.dramUsed

/-- The percentiles are in range, so a result is computed for every state. -/
theorem result_eq (sim : KVMemorySimulator) (s : SimulatorState) (events : List MemoryIntentEvent) :
    sim.result s events = .ok (sim.report s events) := by
  have h50 := percentile_eq (s.latencies.map fun l => (l : ℚ)) (show (0 : ℚ) ≤ 50 by norm_num) (by norm_num)
  have h95 := percentile_eq (s.latencies.map fun l => (l : ℚ)) (show (0 : ℚ) ≤ 95 by norm_num) (by norm_num)
  have h99 := percentile_eq (s.latencies.map fun l => (l : ℚ)) (show (0 : ℚ) ≤ 99 by norm_num) (by norm_num)
  exact Replay.bind_eq_ok.mpr ⟨_, h50, Replay.bind_eq_ok.mpr ⟨_, h95, Replay.bind_eq_ok.mpr ⟨_, h99, rfl⟩⟩⟩

theorem run_ok {events : List MemoryIntentEvent} {result : SimulationResult}
    (h : sim.run order s events = .ok (s', result)) :
    sim.replay order s events = .ok s' ∧ result = sim.report s' events := by
  obtain ⟨u, hreplay, h⟩ := Replay.bind_eq_ok.mp h
  rw [result_eq] at h
  cases h
  exact ⟨hreplay, rfl⟩

/-- A replay that goes through is a run with a result. -/
theorem run_of_replay {events : List MemoryIntentEvent} (h : sim.replay order s events = .ok s') :
    sim.run order s events = .ok (s', sim.report s' events) := by
  rw [run, h]
  simp only [bind, Except.bind, result_eq, pure, Except.pure]

end KVMemorySimulator

end KVMemoryIntent
