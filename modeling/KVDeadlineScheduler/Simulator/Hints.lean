-- SUMMARY: Events that only annotate blocks: they move and resize nothing, and a cold mark does not take a pin back.
import KVDeadlineScheduler.Simulator.DecodeCritical
import KVDeadlineScheduler.Simulator.HbmBound

/-!
# Hints

Decode-critical marks, cold marks, commits and misses are reports about a block.
They write fields that the policies read, and leave the residency sets, the byte
counts and the counters alone. The fields a cold mark writes do not include the
pin, so a pin that an earlier event set outlives it.
-/

namespace KVMemoryIntent

/-- The event types that only annotate. -/
def EventType.IsHint (t : EventType) : Prop :=
  t = .markedDecodeCritical ∨ t = .markedCold ∨ t = .committed ∨ t = .miss

instance (t : EventType) : Decidable t.IsHint := inferInstanceAs (Decidable (_ ∨ _))

/-! ## What a block occupies -/

/-- The block occupies as much, in the same tier, costs as much to bring back, and
belongs to the same request. -/
structure MemoryIntent.SameFootprint (b b' : MemoryIntent) : Prop where
  sizeBytes : b'.sizeBytes = b.sizeBytes
  allowedTiers : b'.allowedTiers = b.allowedTiers
  currentTier : b'.currentTier = b.currentTier
  recomputeCostUs : b'.recomputeCostUs = b.recomputeCostUs
  spillCostUs : b'.spillCostUs = b.spillCostUs
  requestId : b'.requestId = b.requestId
  blockId : b'.blockId = b.blockId

namespace MemoryIntent.SameFootprint

variable {a b c : MemoryIntent}

theorem refl (b : MemoryIntent) : b.SameFootprint b := ⟨rfl, rfl, rfl, rfl, rfl, rfl, rfl⟩

theorem trans (h : a.SameFootprint b) (h' : b.SameFootprint c) : a.SameFootprint c where
  sizeBytes := h'.sizeBytes.trans h.sizeBytes
  allowedTiers := h'.allowedTiers.trans h.allowedTiers
  currentTier := h'.currentTier.trans h.currentTier
  recomputeCostUs := h'.recomputeCostUs.trans h.recomputeCostUs
  spillCostUs := h'.spillCostUs.trans h.spillCostUs
  requestId := h'.requestId.trans h.requestId
  blockId := h'.blockId.trans h.blockId

theorem of_aged (h : SimulatorState.Aged a b) : a.SameFootprint b := by
  obtain ⟨r, -, rfl⟩ := h
  exact ⟨rfl, rfl, rfl, rfl, rfl, rfl, rfl⟩

end MemoryIntent.SameFootprint

namespace KVMemorySimulator

variable {sim : KVMemorySimulator} {order : SetOrder} {s s' t : SimulatorState}
  {e : MemoryIntentEvent} {latency : ℤ} {C : SimulatorState → MemoryIntent → Prop}

theorem annotate_sameFootprint (e : MemoryIntentEvent) (existing : MemoryIntent) :
    existing.SameFootprint (annotate e existing) := by
  unfold annotate
  split <;> exact ⟨rfl, rfl, rfl, rfl, rfl, rfl, rfl⟩

/-- Every live block of `s` is live in `t` and occupies what it did. -/
def KeepsFootprints (s t : SimulatorState) : Prop :=
  ∀ id b, s.liveBlocks.get? id = some b →
    ∃ b', t.liveBlocks.get? id = some b' ∧ b.SameFootprint b'

theorem keepsFootprints_refl (s : SimulatorState) : KeepsFootprints s s :=
  fun _ b hb => ⟨b, hb, .refl b⟩

theorem KeepsFootprints.trans {u : SimulatorState} (h : KeepsFootprints s t) (h' : KeepsFootprints t u) :
    KeepsFootprints s u := by
  intro id b hb
  obtain ⟨b', hb', hsame⟩ := h id b hb
  obtain ⟨b'', hb'', hsame'⟩ := h' id b' hb'
  exact ⟨b'', hb'', hsame.trans hsame'⟩

theorem Settled.keepsFootprints (h : Settled sim e latency t s') : KeepsFootprints t s' := by
  intro id b hb
  obtain ⟨b', hb', haged⟩ := (h.aged id).2 b hb
  exact ⟨b', hb', .of_aged haged⟩

/-- The bytes of ids that are all live. -/
theorem KeepsFootprints.usedBytes_eq (h : KeepsFootprints s t) {ids : Finset String}
    (hlive : ∀ id ∈ ids, ∃ b, s.liveBlocks.get? id = some b) : t.usedBytes ids = s.usedBytes ids := by
  refine SimulatorState.usedBytes_congr fun id hin => ?_
  obtain ⟨b, hb⟩ := hlive id hin
  obtain ⟨b', hb', hsame⟩ := h id b hb
  rw [SimulatorState.sizeOf_of_get? hb, SimulatorState.sizeOf_of_get? hb', hsame.sizeBytes]

/-! ## Hints -/

theorem keepsFootprints_annotate {existing : MemoryIntent}
    (hget : s.liveBlocks.get? e.objectId = some existing) :
    KeepsFootprints s (storeBlock s e (annotate e existing)) := by
  intro id b hb
  by_cases hid : id = e.objectId
  · subst hid
    rw [hget] at hb
    cases hb
    exact ⟨_, OrderedDict.get?_set_self _ _ _, annotate_sameFootprint e existing⟩
  · exact ⟨b, (OrderedDict.get?_set_of_ne _ _ hid).trans hb, .refl b⟩

/-- A block that is stored under an unknown id replaces none. -/
theorem keepsFootprints_unknown (block : MemoryIntent) (hget : s.liveBlocks.get? e.objectId = none) :
    KeepsFootprints s (storeBlock s e block) := by
  intro id b hb
  have hid : id ≠ e.objectId := by
    rintro rfl
    rw [hget] at hb
    cases hb
  exact ⟨b, (OrderedDict.get?_set_of_ne _ _ hid).trans hb, .refl b⟩

/-- The ways a hint can go. -/
inductive Hinted (s : SimulatorState) (e : MemoryIntentEvent) : SimulatorState → Prop where
  | annotated {existing : MemoryIntent} (hget : s.liveBlocks.get? e.objectId = some existing) :
      Hinted s e (storeBlock s e (annotate e existing))
  | unknown (htype : e.eventType = .markedDecodeCritical)
      (hget : s.liveBlocks.get? e.objectId = none) :
      Hinted s e (storeBlock s e (markedUnknownBlock e))
  | ignored (h : e.eventType = .miss ∨ s.liveBlocks.get? e.objectId = none) : Hinted s e s

theorem Ignored.hinted (h : Ignored s e) (hhint : e.eventType.IsHint) : Hinted s e s := by
  cases h with
  | miss htype => exact .ignored (.inl htype)
  | unknown _ hget => exact .ignored (.inr hget)
  | spillDenied htype => exact absurd hhint (by rw [htype]; decide)
  | resident htype => exact absurd hhint (by rw [htype]; decide)

theorem Dispatched.hinted (h : Dispatched sim order C s e t latency) (hhint : e.eventType.IsHint) :
    latency = 0 ∧ Hinted s e t := by
  have hother : ∀ ty, ¬ty.IsHint → e.eventType ≠ ty := by
    rintro ty hty rfl
    exact hty hhint
  cases h with
  | markedUnknown htype hget => exact ⟨rfl, .unknown htype hget⟩
  | annotated _ hget => exact ⟨rfl, .annotated hget⟩
  | unchanged hignored => exact ⟨rfl, hignored.hinted hhint⟩
  | allocatedHbm htype => exact absurd htype (hother _ (by decide))
  | allocatedDram htype => exact absurd htype (hother _ (by decide))
  | allocatedOther htype => exact absurd htype (hother _ (by decide))
  | hit htype => exact absurd htype (hother _ (by decide))
  | miss htype => exact absurd htype (hother _ (by decide))
  | spilled htype => exact absurd htype (hother _ (by decide))
  | prefetchDeclined htype => exact absurd htype (hother _ (by decide))
  | prefetched haccepted => exact absurd haccepted.1 (hother _ (by decide))
  | evicted htype => exact absurd htype (hother _ (by decide))
  | freed htype => exact absurd htype (hother _ (by decide))

theorem Hinted.keepsFootprints (h : Hinted s e t) : KeepsFootprints s t := by
  cases h with
  | annotated hget => exact keepsFootprints_annotate hget
  | unknown _ hget => exact keepsFootprints_unknown _ hget
  | ignored => exact keepsFootprints_refl s

/-- A hint writes live blocks and nothing else. -/
theorem Hinted.eq (h : Hinted s e t) : t = { s with liveBlocks := t.liveBlocks } := by
  cases h <;> rfl

/-- Nothing moved, nothing was resized, and nothing was counted. -/
structure MemoryUnchanged (s s' : SimulatorState) : Prop where
  hbmBlocks : s'.hbmBlocks = s.hbmBlocks
  dramBlocks : s'.dramBlocks = s.dramBlocks
  hbmUsed : s'.hbmUsed = s.hbmUsed
  dramUsed : s'.dramUsed = s.dramUsed
  peakHbmDemandBytes : s'.peakHbmDemandBytes = s.peakHbmDemandBytes
  actualPeakHbmUsedBytes : s'.actualPeakHbmUsedBytes = s.actualPeakHbmUsedBytes
  missCount : s'.missCount = s.missCount
  decodeCriticalMisses : s'.decodeCriticalMisses = s.decodeCriticalMisses
  spillCount : s'.spillCount = s.spillCount
  evictionCount : s'.evictionCount = s.evictionCount
  decodeCriticalEvictions : s'.decodeCriticalEvictions = s.decodeCriticalEvictions
  prefetchCount : s'.prefetchCount = s.prefetchCount
  capacityExhaustionEvents : s'.capacityExhaustionEvents = s.capacityExhaustionEvents
  pinnedCapacityExhaustionEvents :
    s'.pinnedCapacityExhaustionEvents = s.pinnedCapacityExhaustionEvents
  decisionLog : s'.decisionLog = s.decisionLog
  footprints : KeepsFootprints s s'

theorem runEvent_hint (hs : s.Consistent) (hhint : e.eventType.IsHint)
    (h : sim.runEvent order s e = .ok s') :
    MemoryUnchanged s s' ∧ s'.latencies = s.latencies ++ [sim.baseStepLatencyUs] := by
  obtain ⟨t, latency, hd, -, hsettled⟩ := runEvent_ok hs victimsMeet_true h
  obtain ⟨rfl, hhinted⟩ := hd.hinted hhint
  have hkept := hhinted.keepsFootprints.trans hsettled.keepsFootprints
  -- all fields but the live blocks and the bookkeeping of the step are those of `s`
  have hfields := hsettled.eq
  rw [hhinted.eq] at hfields
  have hhbm : s'.hbmBlocks = s.hbmBlocks := by rw [hfields]
  have hdram : s'.dramBlocks = s.dramBlocks := by rw [hfields]
  have hhbmUsed : s'.hbmUsed = s.hbmUsed := by
    unfold SimulatorState.hbmUsed
    rw [hhbm, hkept.usedBytes_eq hs.hbm_live]
  have hdramUsed : s'.dramUsed = s.dramUsed := by
    unfold SimulatorState.dramUsed
    rw [hdram, hkept.usedBytes_eq hs.dram_live]
  refine ⟨⟨hhbm, hdram, hhbmUsed, hdramUsed, ?_, ?_, ?_, ?_, ?_, ?_, ?_, ?_, ?_, ?_, ?_, hkept⟩, ?_⟩
  all_goals rw [hfields]
  rw [add_zero]

/-- A decode-critical mark, a cold mark, a commit or a miss that is processed leaves
the residency sets, the byte counts, the peaks, the counters and the log as they
were, keeps what every live block occupies, and takes one base step. -/
theorem hints_leave_memory_alone {events : List MemoryIntentEvent} (hhint : e.eventType.IsHint)
    (hreach : sim.replay order SimulatorState.initial events = .ok s)
    (h : sim.runEvent order s e = .ok s') :
    MemoryUnchanged s s' ∧ s'.latencies = s.latencies ++ [sim.baseStepLatencyUs] :=
  runEvent_hint (replay_consistent SimulatorState.consistent_initial hreach) hhint h

/-- A decode-critical mark on an unknown object, while two blocks are resident. -/
def criticalMark : MemoryIntentEvent :=
  sampleEvent 2 .markedDecodeCritical (sampleIntent "c" {.hbm, .dram} .hbm)

theorem hints_leave_memory_alone_unknown :
    ∃ s s', (pressured LRUPolicy).replay .fastestFirst .initial (pressureTrace.take 2) = .ok s ∧
      (pressured LRUPolicy).runEvent .fastestFirst s criticalMark = .ok s' ∧
      MemoryUnchanged s s' ∧ s'.latencies = s.latencies ++ [50] := by
  obtain ⟨⟨s, s'⟩, h, -⟩ := Replay.exists_of_check
    (x := do
      let s ← (pressured LRUPolicy).replay .fastestFirst .initial (pressureTrace.take 2)
      let s' ← (pressured LRUPolicy).runEvent .fastestFirst s criticalMark
      pure (s, s'))
    (p := fun _ => true) (by decide +kernel)
  obtain ⟨s₀, hreach, h⟩ := Replay.bind_eq_ok.mp h
  obtain ⟨s₁, hstep, h⟩ := Replay.bind_eq_ok.mp h
  cases h
  exact ⟨s, s', hreach, hstep, hints_leave_memory_alone (.inl rfl) hreach hstep⟩

/-! ## Cold marks and pins -/

/-- A cold mark on a live block that asks for no pin. -/
def UnpinnedColdMark (s : SimulatorState) (e : MemoryIntentEvent) : Prop :=
  e.eventType = .markedCold ∧ e.intent.pinRequested = false ∧ s.liveBlocks.get? e.objectId ≠ none

/-- The block `id` is live and not pinned. -/
def Unpinned (s : SimulatorState) (id : String) : Prop :=
  ∃ b, s.liveBlocks.get? id = some b ∧ b.pinRequested = false

/-- The block `id` is live and not pinned, and while it is resident the policies
that protect pins choose their victim among blocks that include it. -/
def NormalCandidate (order : SetOrder) (s : SimulatorState) (id : String) : Prop :=
  ∃ b, s.liveBlocks.get? id = some b ∧ b.pinRequested = false ∧
    (id ∈ s.hbmBlocks → b ∈ IntentAwarePolicy.admissible (order.candidates s))

theorem normalCandidate_iff {id : String} : NormalCandidate order s id ↔ Unpinned s id := by
  constructor
  · rintro ⟨b, hb, hpin, -⟩
    exact ⟨b, hb, hpin⟩
  · rintro ⟨b, hb, hpin⟩
    refine ⟨b, hb, hpin, fun hin => ?_⟩
    exact IntentAwarePolicy.mem_admissible (SetOrder.mem_candidates.mpr ⟨id, hin, hb⟩) hpin

/-- A cold mark leaves the pin as it finds it. -/
theorem annotate_coldMark_pin (htype : e.eventType = .markedCold) (existing : MemoryIntent) :
    (annotate e existing).pinRequested = existing.pinRequested := by
  simp only [annotate, htype, markCold]

/-- After a cold mark its block is pinned exactly if it was before. -/
theorem runEvent_coldMark (hs : s.Consistent) (htype : e.eventType = .markedCold)
    (h : sim.runEvent order s e = .ok s') : Unpinned s' e.objectId ↔ Unpinned s e.objectId := by
  obtain ⟨t, latency, hd, -, hsettled⟩ := runEvent_ok hs victimsMeet_true h
  have hmark : Unpinned t e.objectId ↔ Unpinned s e.objectId := by
    cases (hd.hinted (.inr (.inl htype))).2 with
    | annotated hget => simp [Unpinned, storeBlock, hget, annotate_coldMark_pin htype]
    | unknown hcritical => simp [htype] at hcritical
    | ignored => exact Iff.rfl
  have hdecay : Unpinned s' e.objectId ↔ Unpinned t e.objectId := by
    constructor
    · rintro ⟨b', hb', hpin⟩
      obtain ⟨b, hb, r, -, rfl⟩ := hsettled.aged.of_some hb'
      exact ⟨b, hb, hpin⟩
    · rintro ⟨b, hb, hpin⟩
      obtain ⟨b', hb', r, -, rfl⟩ := (hsettled.aged e.objectId).2 b hb
      exact ⟨_, hb', hpin⟩
  exact hdecay.trans hmark

/-- A run turns every live block that is marked cold without a pin into a normal
candidate if and only if none of these blocks is pinned when the mark arrives. -/
theorem coldMarks_unpin_iff (sim : KVMemorySimulator) (order : SetOrder)
    (events : List MemoryIntentEvent) :
    Replay.EachStep (sim.runEvent order)
        (fun s e s' => UnpinnedColdMark s e → NormalCandidate order s' e.objectId) .initial events ↔
      Replay.EachStep (sim.runEvent order)
        (fun s e _ => UnpinnedColdMark s e → Unpinned s e.objectId) .initial events := by
  refine Replay.eachStep_congr (I := SimulatorState.Consistent) (fun _ _ _ => runEvent_consistent)
    (fun s e s' hs hstep => ?_) SimulatorState.consistent_initial events
  refine forall_congr' fun hmark => ?_
  rw [normalCandidate_iff, runEvent_coldMark hs hmark.1 hstep]

/-- A block is allocated and marked decode-critical. -/
def hotTrace : List MemoryIntentEvent :=
  [sampleEvent 0 .allocated (sampleIntent "a" {.hbm, .dram} .hbm),
    sampleEvent 1 .markedDecodeCritical
      { pinnedIntent "a" with priority := .decodeCritical, phase := .decode }]

/-- The mark of a block that has gone cold asks for no pin. -/
def coldMark : MemoryIntentEvent :=
  sampleEvent 2 .markedCold
    { sampleIntent "a" {.hbm, .dram} .hbm with priority := .cold, phase := .done }

theorem cold_mark_keeps_pin :
    ¬∀ (sim : KVMemorySimulator) (order : SetOrder) (events : List MemoryIntentEvent),
      Replay.EachStep (sim.runEvent order)
        (fun s e s' => UnpinnedColdMark s e → NormalCandidate order s' e.objectId) .initial events := by
  intro hall
  obtain ⟨⟨s, s'⟩, h, hcheck⟩ := Replay.exists_of_check
    (x := do
      let s ← (pressured DeadlineAwarePolicy).replay .fastestFirst .initial hotTrace
      let s' ← (pressured DeadlineAwarePolicy).runEvent .fastestFirst s coldMark
      pure (s, s'))
    (p := fun r => decide (r.1.liveBlocks.get? coldMark.objectId ≠ none) &&
      (r.2.liveBlocks.get? coldMark.objectId).all (·.pinRequested)) (by decide +kernel)
  obtain ⟨s₀, hreplay, h⟩ := Replay.bind_eq_ok.mp h
  obtain ⟨s₁, hstep, h⟩ := Replay.bind_eq_ok.mp h
  cases h
  simp only [Bool.and_eq_true, decide_eq_true_eq, Option.all_eq_true] at hcheck
  have hlast := (hall (pressured DeadlineAwarePolicy) .fastestFirst (hotTrace ++ [coldMark])).last
    hreplay hstep
  obtain ⟨b, hb, hpin, -⟩ := hlast ⟨rfl, by decide +kernel, hcheck.1⟩
  rw [hcheck.2 b hb] at hpin
  cases hpin

end KVMemorySimulator

end KVMemoryIntent
