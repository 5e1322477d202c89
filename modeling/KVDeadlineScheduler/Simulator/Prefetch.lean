-- SUMMARY: Prefetch events: what a declined one overwrites, and when the block of a counted one stays in HBM.
import KVDeadlineScheduler.Simulator.Displacement
import KVDeadlineScheduler.Simulator.HbmBound

/-!
# Prefetches

A prefetch event stores its whole intent before the policy is asked. If the policy
declines, the stored block is where it was but carries the tier and the size of the
event. If it accepts, the block is brought into HBM and the capacity is enforced with
the block among the candidates.
-/

namespace KVMemoryIntent

namespace KVMemorySimulator

variable {sim : KVMemorySimulator} {order : SetOrder} {s s' t : SimulatorState}
  {e : MemoryIntentEvent} {latency : ℤ} {C : SimulatorState → MemoryIntent → Prop} {id : String}

/-! ## Declined prefetches -/

/-- A prefetch event that leads to no prefetch. -/
def DeclinedPrefetch (sim : KVMemorySimulator) (s : SimulatorState) (e : MemoryIntentEvent) : Prop :=
  e.eventType = .prefetched ∧ ¬Prefetches sim s e

/-- The residency sets, their bytes and the tiers of the live blocks are as before. -/
structure PlacementUnchanged (s s' : SimulatorState) : Prop where
  hbmBlocks : s'.hbmBlocks = s.hbmBlocks
  dramBlocks : s'.dramBlocks = s.dramBlocks
  hbmUsed : s'.hbmUsed = s.hbmUsed
  dramUsed : s'.dramUsed = s.dramUsed
  currentTier : ∀ id b, s.liveBlocks.get? id = some b →
    ∃ b', s'.liveBlocks.get? id = some b' ∧ b'.currentTier = b.currentTier

theorem placementUnchanged_refl (s : SimulatorState) : PlacementUnchanged s s :=
  ⟨rfl, rfl, rfl, rfl, fun _ b hb => ⟨b, hb, rfl⟩⟩

/-- The event names an unknown block, a resident one, or one whose tier, and whose
size as far as it is counted, are those the event carries. -/
def AgreesOnPlacement (s : SimulatorState) (e : MemoryIntentEvent) : Prop :=
  e.objectId ∈ s.hbmBlocks ∨ ∀ b, s.liveBlocks.get? e.objectId = some b →
    e.intent.currentTier = b.currentTier ∧
      (e.objectId ∈ s.dramBlocks → e.intent.sizeBytes = b.sizeBytes)

/-- When the size of one block changes, the bytes of a set stay the same exactly if
the block is not in it or keeps its size. -/
theorem usedBytes_eq_iff {ids : Finset String} (hother : ∀ id', id' ≠ id → t.sizeOf id' = s.sizeOf id') :
    t.usedBytes ids = s.usedBytes ids ↔ (id ∈ ids → t.sizeOf id = s.sizeOf id) := by
  by_cases hin : id ∈ ids
  · have hrest : ∑ i ∈ ids.erase id, t.sizeOf i = ∑ i ∈ ids.erase id, s.sizeOf i :=
      Finset.sum_congr rfl fun i hi => hother i (Finset.ne_of_mem_erase hi)
    unfold SimulatorState.usedBytes
    rw [← Finset.add_sum_erase ids t.sizeOf hin, ← Finset.add_sum_erase ids s.sizeOf hin, hrest,
      add_left_inj]
    exact ⟨fun h _ => h, fun h => h hin⟩
  · have hsame : t.usedBytes ids = s.usedBytes ids :=
      SimulatorState.usedBytes_congr fun i hi => hother i fun heq => hin (heq ▸ hi)
    simp [hin, hsame]

theorem sizeOf_storeBlock_of_ne (block : MemoryIntent) (hne : id ≠ e.objectId) :
    (storeBlock s e block).sizeOf id = s.sizeOf id := by
  unfold SimulatorState.sizeOf storeBlock
  rw [OrderedDict.get?_set_of_ne _ _ hne]

/-- A block outside HBM that is overwritten by a declined prefetch. -/
theorem placementUnchanged_storeBlock {existing : MemoryIntent}
    (hget : s.liveBlocks.get? e.objectId = some existing) (hout : e.objectId ∉ s.hbmBlocks) :
    PlacementUnchanged s (storeBlock s e e.intent) ↔ AgreesOnPlacement s e := by
  have hstored : (storeBlock s e e.intent).liveBlocks.get? e.objectId = some e.intent :=
    OrderedDict.get?_set_self _ _ _
  have hsize : (storeBlock s e e.intent).sizeOf e.objectId = e.intent.sizeBytes :=
    SimulatorState.sizeOf_of_get? hstored
  have hsize₀ : s.sizeOf e.objectId = existing.sizeBytes := SimulatorState.sizeOf_of_get? hget
  have hdram : (storeBlock s e e.intent).dramUsed = s.dramUsed ↔
      (e.objectId ∈ s.dramBlocks → e.intent.sizeBytes = existing.sizeBytes) := by
    rw [← hsize, ← hsize₀]
    exact usedBytes_eq_iff fun _ hne => sizeOf_storeBlock_of_ne e.intent hne
  constructor
  · intro h
    refine .inr fun b hb => ?_
    rw [hget] at hb
    cases hb
    obtain ⟨b', hb', htier⟩ := h.currentTier _ _ hget
    rw [hstored] at hb'
    cases hb'
    exact ⟨htier, hdram.mp h.dramUsed⟩
  · intro h
    obtain ⟨htier, hbytes⟩ := (h.resolve_left hout) _ hget
    refine ⟨rfl, rfl, ?_, hdram.mpr hbytes, fun id b hb => ?_⟩
    · exact SimulatorState.usedBytes_congr fun i hi =>
        sizeOf_storeBlock_of_ne e.intent fun heq => hout (heq ▸ hi)
    · by_cases hid : id = e.objectId
      · subst hid
        rw [hget] at hb
        cases hb
        exact ⟨_, hstored, htier⟩
      · exact ⟨b, (OrderedDict.get?_set_of_ne _ _ hid).trans hb, rfl⟩

/-- The decay pass moves nothing. -/
theorem Settled.placementUnchanged_iff (h : Settled sim e latency t s') :
    PlacementUnchanged s s' ↔ PlacementUnchanged s t := by
  have hdram : s'.dramUsed = t.dramUsed := by
    unfold SimulatorState.dramUsed
    rw [h.usedBytes_eq, h.dramBlocks]
  constructor
  · intro hs
    refine ⟨h.hbmBlocks ▸ hs.hbmBlocks, h.dramBlocks ▸ hs.dramBlocks, h.hbmUsed_eq ▸ hs.hbmUsed,
      hdram ▸ hs.dramUsed, fun id b hb => ?_⟩
    obtain ⟨b', hb', htier⟩ := hs.currentTier id b hb
    obtain ⟨c, hc, r, -, rfl⟩ := h.aged.of_some hb'
    exact ⟨c, hc, htier⟩
  · intro hs
    refine ⟨h.hbmBlocks ▸ hs.hbmBlocks, h.dramBlocks ▸ hs.dramBlocks, h.hbmUsed_eq ▸ hs.hbmUsed,
      hdram ▸ hs.dramUsed, fun id b hb => ?_⟩
    obtain ⟨c, hc, htier⟩ := hs.currentTier id b hb
    obtain ⟨b', hb', r, -, rfl⟩ := (h.aged id).2 c hc
    exact ⟨_, hb', htier⟩

/-- The ways a prefetch event can go. -/
inductive PrefetchEffect (sim : KVMemorySimulator) (order : SetOrder) (s : SimulatorState)
    (e : MemoryIntentEvent) : SimulatorState → Prop where
  | ignored (h : s.liveBlocks.get? e.objectId = none ∨ e.objectId ∈ s.hbmBlocks) :
      PrefetchEffect sim order s e s
  | declined {existing : MemoryIntent} (hget : s.liveBlocks.get? e.objectId = some existing)
      (hout : e.objectId ∉ s.hbmBlocks) (hdeclined : ¬Prefetches sim s e) :
      PrefetchEffect sim order s e (storeBlock s e e.intent)
  | accepted {u : SimulatorState} {latency : ℤ} (haccepted : Prefetches sim s e)
      (hrun : CapacityRun sim order e.step (fun _ _ => True) (prefetchedInHbm s e) latency u) :
      PrefetchEffect sim order s e
        (sim.logDecision u.recordUsage e.step .prefetch e.intent (sim.prefetchReason e.intent) false)

theorem Dispatched.prefetchEffect (h : Dispatched sim order (fun _ _ => True) s e t latency)
    (htype : e.eventType = .prefetched) : PrefetchEffect sim order s e t := by
  cases h with
  | prefetched haccepted hrun => exact .accepted haccepted hrun
  | prefetchDeclined _ hget hout hdeclined =>
    refine .declined hget hout fun hprefetches => ?_
    rw [hprefetches.2.2.2] at hdeclined
    cases hdeclined
  | unchanged hignored =>
    cases hignored with
    | miss hother => simp [htype] at hother
    | unknown _ hget => exact .ignored (.inl hget)
    | spillDenied hother => simp [htype] at hother
    | resident _ hin => exact .ignored (.inr hin)
  | annotated hother => rcases hother with hother | hother | hother <;> simp [htype] at hother
  | allocatedHbm hother => simp [htype] at hother
  | allocatedDram hother => simp [htype] at hother
  | allocatedOther hother => simp [htype] at hother
  | hit hother => simp [htype] at hother
  | miss hother => simp [htype] at hother
  | markedUnknown hother => simp [htype] at hother
  | spilled hother => simp [htype] at hother
  | evicted hother => simp [htype] at hother
  | freed hother => simp [htype] at hother

theorem runEvent_declined (hs : s.Consistent) (hdeclined : DeclinedPrefetch sim s e)
    (h : sim.runEvent order s e = .ok s') : PlacementUnchanged s s' ↔ AgreesOnPlacement s e := by
  obtain ⟨t, latency, hd, -, hsettled⟩ := runEvent_ok hs victimsMeet_true h
  rw [hsettled.placementUnchanged_iff]
  cases hd.prefetchEffect hdeclined.1 with
  | ignored hignored =>
    refine iff_of_true (placementUnchanged_refl s) ?_
    rcases hignored with hget | hin
    · refine .inr fun b hb => ?_
      rw [hget] at hb
      cases hb
    · exact .inl hin
  | declined hget hout => exact placementUnchanged_storeBlock hget hout
  | accepted haccepted => exact absurd haccepted hdeclined.2

/-- In a run every prefetch event that leads to no prefetch leaves all blocks where
they are if and only if each of them carries the tier of the stored block, and its
size if DRAM counts it, unless the block is unknown or resident. -/
theorem declined_prefetches_move_nothing_iff (sim : KVMemorySimulator) (order : SetOrder)
    (events : List MemoryIntentEvent) :
    Replay.EachStep (sim.runEvent order)
        (fun s e s' => DeclinedPrefetch sim s e → PlacementUnchanged s s') .initial events ↔
      Replay.EachStep (sim.runEvent order)
        (fun s e _ => DeclinedPrefetch sim s e → AgreesOnPlacement s e) .initial events := by
  refine Replay.eachStep_congr (I := SimulatorState.Consistent) (fun _ _ _ => runEvent_consistent)
    (fun s e s' hs hstep => ?_) SimulatorState.consistent_initial events
  exact forall_congr' fun hdeclined => runEvent_declined hs hdeclined hstep

/-- LRU declines the prefetch of a block that DRAM holds with ten bytes. The event
carries twenty. -/
def grownPrefetch : MemoryIntentEvent :=
  sampleEvent 1 .prefetched { sampleIntent "a" {.hbm, .dram} .hbm with sizeBytes := 20 }

theorem declined_prefetch_resizes :
    ¬∀ (sim : KVMemorySimulator) (order : SetOrder) (events : List MemoryIntentEvent),
      Replay.EachStep (sim.runEvent order)
        (fun s e s' => DeclinedPrefetch sim s e → PlacementUnchanged s s') .initial events := by
  intro hall
  obtain ⟨⟨s, s'⟩, h, hcheck⟩ := Replay.exists_of_check
    (x := do
      let s ← (pressured LRUPolicy).replay .fastestFirst .initial
        [sampleEvent 0 .allocated (sampleIntent "a" {.hbm, .dram} .dram)]
      let s' ← (pressured LRUPolicy).runEvent .fastestFirst s grownPrefetch
      pure (s, s'))
    (p := fun r => decide (¬Prefetches (pressured LRUPolicy) r.1 grownPrefetch ∧
      r.1.dramUsed = 10 ∧ r.2.dramUsed = 20)) (by decide +kernel)
  obtain ⟨s₀, hreplay, h⟩ := Replay.bind_eq_ok.mp h
  obtain ⟨s₁, hstep, h⟩ := Replay.bind_eq_ok.mp h
  cases h
  obtain ⟨hdeclined, hbefore, hafter⟩ := of_decide_eq_true hcheck
  have hlast := (hall (pressured LRUPolicy) .fastestFirst
    ([sampleEvent 0 .allocated (sampleIntent "a" {.hbm, .dram} .dram)] ++ [grownPrefetch])).last
    hreplay hstep
  have hsame := (hlast ⟨rfl, hdeclined⟩).dramUsed
  rw [hbefore, hafter] at hsame
  cases hsame

/-! ## Counted prefetches -/

/-- Only an accepted prefetch is counted. -/
theorem PrefetchEffect.accepted_of_count (h : PrefetchEffect sim order s e t)
    (hcount : t.prefetchCount = s.prefetchCount + 1) :
    ∃ u latency, Prefetches sim s e ∧ t.hbmBlocks = u.hbmBlocks ∧
      CapacityRun sim order e.step (fun _ _ => True) (prefetchedInHbm s e) latency u := by
  cases h with
  | ignored => exact absurd hcount (Nat.ne_of_lt (Nat.lt_succ_self _))
  | declined => exact absurd hcount (Nat.ne_of_lt (Nat.lt_succ_self _))
  | @accepted u latency haccepted hrun => exact ⟨u, latency, haccepted, rfl, hrun⟩

/-- The resident blocks that the deadline-aware policy would not displace before the
block of the event: the pinned ones, and those with a lower eviction score. Of two
blocks with one score the larger is displaced first, then the one with the greater id. -/
def outlastingDeadline (s : SimulatorState) (e : MemoryIntentEvent) : Finset String :=
  outlasting (·.pinRequested)
    (fun a b => IntentAwarePolicy.key DeadlineAwarePolicy.evictionScore e.step b <
      IntentAwarePolicy.key DeadlineAwarePolicy.evictionScore e.step a) s e.intent

/-- Under the deadline-aware policy the block of a counted prefetch is in HBM after the
event if and only if it is pinned, or fits together with the resident blocks that the
policy would not displace before it. -/
theorem counted_prefetch_effective_iff {events : List MemoryIntentEvent}
    (hpolicy : sim.policy = DeadlineAwarePolicy) (hreach : sim.replay order .initial events = .ok s)
    (htype : e.eventType = .prefetched) (h : sim.runEvent order s e = .ok s')
    (hcount : s'.prefetchCount = s.prefetchCount + 1) :
    e.objectId ∈ s'.hbmBlocks ↔ e.intent.pinRequested = true ∨
      e.intent.sizeBytes + s.usedBytes (outlastingDeadline s e) ≤ sim.hbmCapacityBytes := by
  have hs := replay_consistent SimulatorState.consistent_initial hreach
  obtain ⟨t, latency, hd, -, hsettled⟩ := runEvent_ok hs victimsMeet_true h
  have hcount' : t.prefetchCount = s.prefetchCount + 1 := by
    rw [hsettled.eq] at hcount
    exact hcount
  obtain ⟨u, l, haccepted, hhbm, hrun⟩ := (hd.prefetchEffect htype).accepted_of_count hcount'
  have hby : sim.policy.DisplacesBy e.step (·.pinRequested) _ :=
    hpolicy ▸ DeadlineAwarePolicy.displacesBy e.step
  rw [hsettled.hbmBlocks, hhbm]
  by_cases hpin : e.intent.pinRequested = true
  · exact iff_of_true (hrun.placed_protected hby hs stored_prefetchedInHbm rfl hpin) (.inl hpin)
  · -- the score does not look at the tier, which is all that the move has changed
    have hplaced := hrun.placed_mem_iff hby hs stored_prefetchedInHbm rfl haccepted.2.2.1
      (by simpa using hpin)
    rw [or_iff_right hpin]
    exact hplaced

/-- An urgent block in HBM and another block in DRAM. -/
def contendedTrace : List MemoryIntentEvent :=
  [sampleEvent 0 .allocated tightIntent,
    sampleEvent 1 .allocated (sampleIntent "late" {.hbm, .dram} .dram)]

/-- The prefetch of a block that is urgent enough to be fetched, but less so than the
block it meets. -/
def contendedPrefetch : MemoryIntentEvent :=
  sampleEvent 2 .prefetched
    { sampleIntent "late" {.hbm, .dram} .dram with
      priority := .hot
      deadlineUs := some 5000
      prefetchOk := true }

/-- The prefetch as it goes with room for one block. -/
theorem contended_check :
    ∃ s s', deadlineOneBlock.replay .fastestFirst .initial contendedTrace = .ok s ∧
      deadlineOneBlock.runEvent .fastestFirst s contendedPrefetch = .ok s' ∧
      s'.prefetchCount = s.prefetchCount + 1 ∧ contendedPrefetch.objectId ∉ s'.hbmBlocks ∧
      s.usedBytes (s.hbmBlocks.filter fun id => ProtectedIn (·.pinRequested) s id) = 0 := by
  obtain ⟨⟨s, s'⟩, h, hcheck⟩ := Replay.exists_of_check
    (x := do
      let s ← deadlineOneBlock.replay .fastestFirst .initial contendedTrace
      let s' ← deadlineOneBlock.runEvent .fastestFirst s contendedPrefetch
      pure (s, s'))
    (p := fun r => decide (r.2.prefetchCount = r.1.prefetchCount + 1 ∧
      contendedPrefetch.objectId ∉ r.2.hbmBlocks ∧
      r.1.usedBytes (r.1.hbmBlocks.filter fun id => ProtectedIn (·.pinRequested) r.1 id) = 0))
    (by decide +kernel)
  obtain ⟨s₀, hreplay, h⟩ := Replay.bind_eq_ok.mp h
  obtain ⟨s₁, hstep, h⟩ := Replay.bind_eq_ok.mp h
  cases h
  exact ⟨s, s', hreplay, hstep, of_decide_eq_true hcheck⟩

theorem counted_prefetch_effective_iff_contended :
    ∃ s s', deadlineOneBlock.replay .fastestFirst .initial contendedTrace = .ok s ∧
      deadlineOneBlock.runEvent .fastestFirst s contendedPrefetch = .ok s' ∧
      (contendedPrefetch.objectId ∈ s'.hbmBlocks ↔ contendedPrefetch.intent.pinRequested = true ∨
        contendedPrefetch.intent.sizeBytes + s.usedBytes (outlastingDeadline s contendedPrefetch) ≤
          deadlineOneBlock.hbmCapacityBytes) := by
  obtain ⟨s, s', hreplay, hstep, hcount, -⟩ := contended_check
  exact ⟨s, s', hreplay, hstep, counted_prefetch_effective_iff rfl hreplay rfl hstep hcount⟩

/-- A counted prefetch that would fit together with the pinned blocks is displaced at
once. -/
theorem counted_prefetch_displaced :
    ¬∀ (sim : KVMemorySimulator) (order : SetOrder) (events : List MemoryIntentEvent)
      (s s' : SimulatorState) (e : MemoryIntentEvent),
      sim.policy = DeadlineAwarePolicy → 0 ≤ sim.hbmCapacityBytes →
      sim.replay order .initial events = .ok s → e.eventType = .prefetched →
      sim.runEvent order s e = .ok s' → s'.prefetchCount = s.prefetchCount + 1 →
      e.intent.sizeBytes + s.usedBytes (s.hbmBlocks.filter fun id =>
        ProtectedIn (·.pinRequested) s id) ≤ sim.hbmCapacityBytes →
      e.objectId ∈ s'.hbmBlocks := by
  intro hall
  obtain ⟨s, s', hreplay, hstep, hcount, hout, hpinned⟩ := contended_check
  refine hout (hall deadlineOneBlock .fastestFirst contendedTrace s s' contendedPrefetch rfl (by decide)
    hreplay rfl hstep hcount ?_)
  rw [hpinned]
  decide +kernel

end KVMemorySimulator

end KVMemoryIntent
