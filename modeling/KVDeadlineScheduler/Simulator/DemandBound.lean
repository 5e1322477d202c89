-- SUMMARY: The demand and the use of HBM: which moves into HBM keep the recorded demand above the recorded use.
import KVDeadlineScheduler.Simulator.Demand
import KVDeadlineScheduler.Simulator.Exits
import KVDeadlineScheduler.Simulator.Peak

/-!
# Demand and use

A demand is recorded for allocations only. A miss and a prefetch also bring a block
into HBM, and the use that they leave is recorded. It stays below the demand where
the block fits below it, or where what the capacity loop may leave behind does.
-/

namespace KVMemoryIntent

/-- The bytes of a block that a policy may not be able to displace. -/
def MemoryIntent.pinnedBytes (block : MemoryIntent) : ℤ :=
  if block.pinRequested then block.sizeBytes else 0

namespace SimulatorState

def pinnedSizeOf (s : SimulatorState) (id : String) : ℤ :=
  ((s.liveBlocks.get? id).map MemoryIntent.pinnedBytes).getD 0

/-- The bytes of the pinned blocks in HBM. -/
def pinnedBytes (s : SimulatorState) : ℤ := ∑ id ∈ s.hbmBlocks, s.pinnedSizeOf id

theorem pinnedSizeOf_of_get? {s : SimulatorState} {id : String} {b : MemoryIntent}
    (h : s.liveBlocks.get? id = some b) : s.pinnedSizeOf id = b.pinnedBytes := by
  simp [pinnedSizeOf, h]

theorem Consistent.pinnedSizeOf_nonneg {s : SimulatorState} (hs : s.Consistent) (id : String) :
    0 ≤ s.pinnedSizeOf id := by
  unfold pinnedSizeOf MemoryIntent.pinnedBytes
  cases hb : s.liveBlocks.get? id with
  | none => exact le_refl 0
  | some b =>
    have hpos := (hs.sound id b hb).sizeBytes_pos
    simp only [Option.map_some, Option.getD_some]
    split
    · exact hpos.le
    · exact le_refl 0

end SimulatorState

namespace KVMemorySimulator

variable {sim : KVMemorySimulator} {order : SetOrder} {s s' t u : SimulatorState}
  {e : MemoryIntentEvent} {latency currentStep : ℤ} {C : SimulatorState → MemoryIntent → Prop}
  {block : MemoryIntent}

/-! ## What the capacity loop leaves in HBM -/

theorem CapacityRun.hbmUsed_le (h : CapacityRun sim order currentStep C s latency t) (hs : s.Consistent) :
    t.hbmUsed ≤ s.hbmUsed := by
  have hframe := h.frame hs
  have hsizes : t.hbmUsed = s.usedBytes t.hbmBlocks :=
    SimulatorState.usedBytes_congr fun id _ => hframe.sizeOf_eq id
  rw [hsizes]
  exact hs.usedBytes_mono hframe.hbm_subset

/-- Blocks that are all pinned were pinned when the loop was entered. -/
theorem CapacityFrame.hbmUsed_le_pinned (h : CapacityFrame s t) (hs : s.Consistent)
    (hpinned : ∀ id ∈ t.hbmBlocks, ∃ b, t.liveBlocks.get? id = some b ∧ b.pinRequested = true) :
    t.hbmUsed ≤ s.pinnedBytes := by
  have hsizes : t.hbmUsed = ∑ id ∈ t.hbmBlocks, s.pinnedSizeOf id := by
    refine Finset.sum_congr rfl fun id hin => ?_
    obtain ⟨b, hb, hpin⟩ := hpinned id hin
    obtain ⟨a, ha, hretiered⟩ := h.retiered.of_some hb
    obtain ⟨tier, rfl⟩ := hretiered
    have hpin' : a.pinRequested = true := hpin
    rw [SimulatorState.sizeOf_of_get? hb, SimulatorState.pinnedSizeOf_of_get? ha, MemoryIntent.pinnedBytes,
      if_pos hpin']
  rw [hsizes]
  exact Finset.sum_le_sum_of_subset_of_nonneg h.hbm_subset fun id _ _ => hs.pinnedSizeOf_nonneg id

/-- The loop ends within the capacity, with an empty HBM, or with the pinned blocks that a policy
protects. -/
theorem CapacityRun.leaves (hp : sim.policy.AccessBased ∨ sim.policy.IntentAware)
    (h : CapacityRun sim order currentStep C s latency t) (hs : s.Consistent) :
    t.hbmUsed ≤ sim.hbmCapacityBytes ∨ t.hbmUsed = 0 ∨
      sim.policy.protectsPinned = true ∧ t.hbmUsed ≤ s.pinnedBytes := by
  obtain ⟨victims, u, hdisplaced, hlast⟩ := h.displacements
  have hnone : ∀ {blocks : List MemoryIntent},
      sim.policy.chooseVictim blocks sim.hbmCapacityBytes currentStep = none → blocks = [] := by
    intro blocks hchoice
    rcases hp with hp | hp
    · exact hp.eq_nil_of_none hchoice
    · exact hp.eq_nil_of_none hchoice
  obtain ⟨exit, hexit⟩ := hlast.describes (hdisplaced.consistent hs) hnone rfl rfl
  cases exit with
  | fits => exact .inl hexit.1
  | allPinned => exact .inr (.inr ⟨hexit.1, (h.frame hs).hbmUsed_le_pinned hs hexit.2.2.2.1⟩)
  | empty =>
    have hempty : t.hbmBlocks = ∅ := hexit.2.1
    refine .inr (.inl ?_)
    rw [SimulatorState.hbmUsed, hempty]
    rfl

/-! ## Moves into HBM -/

/-- The block that the event moves into HBM without a demand, if it moves one. -/
def movedBlock (sim : KVMemorySimulator) (s : SimulatorState) (e : MemoryIntentEvent) :
    Option MemoryIntent :=
  if Misses s e then some (accessedBlock s e)
  else if Prefetches sim s e then some e.intent
  else none

/-- A block that the event moves into HBM fits below the demand so far, or the capacity does and so
do, under a policy that protects pins, the pinned blocks. -/
def DemandCovers (sim : KVMemorySimulator) (s : SimulatorState) (e : MemoryIntentEvent) : Prop :=
  match movedBlock sim s e with
  | none => True
  | some block =>
    s.hbmUsed + block.sizeBytes ≤ s.peakHbmDemandBytes ∨
      sim.hbmCapacityBytes ≤ s.peakHbmDemandBytes ∧
        (sim.policy.protectsPinned = true →
          s.pinnedBytes + block.pinnedBytes ≤ s.peakHbmDemandBytes)

instance : Decidable (DemandCovers sim s e) := by
  unfold DemandCovers
  split <;> infer_instance

theorem Stored.pinnedBytes_eq (h : Stored s e block t) (hout : e.objectId ∉ s.hbmBlocks)
    (hhbm : t.hbmBlocks = insert e.objectId s.hbmBlocks) :
    t.pinnedBytes = s.pinnedBytes + block.pinnedBytes := by
  have hself : t.pinnedSizeOf e.objectId = block.pinnedBytes := by
    apply SimulatorState.pinnedSizeOf_of_get?
    rw [h.liveBlocks, OrderedDict.get?_set_self]
  rw [SimulatorState.pinnedBytes, hhbm, Finset.sum_insert hout, hself, add_comm]
  congr 1
  refine Finset.sum_congr rfl fun id hin => ?_
  rw [SimulatorState.pinnedSizeOf, SimulatorState.pinnedSizeOf, h.get?_of_mem hout hin]

/-- The event moves `block` into HBM, through the capacity loop, and records no demand. -/
structure Moved (sim : KVMemorySimulator) (order : SetOrder) (C : SimulatorState → MemoryIntent → Prop)
    (s : SimulatorState) (e : MemoryIntentEvent) (t : SimulatorState) (block : MemoryIntent) : Prop where
  moved : movedBlock sim s e = some block
  run : ∃ entry u latency, CapacityRun sim order e.step C entry latency u ∧ entry.Consistent ∧
    entry.hbmUsed = s.hbmUsed + block.sizeBytes ∧
    entry.pinnedBytes = s.pinnedBytes + block.pinnedBytes ∧ t.hbmUsed = u.hbmUsed

theorem Dispatched.moved_or_kept (h : Dispatched sim order C s e t latency) (hs : s.Consistent)
    (htype : e.eventType ≠ .allocated) :
    (∃ block, Moved sim order C s e t block) ∨ s.ResidentRel (KeptInHbm s e) t := by
  cases h with
  | allocatedHbm hallocated => exact absurd hallocated htype
  | allocatedDram hallocated => exact absurd hallocated htype
  | allocatedOther hallocated => exact absurd hallocated htype
  | hit haccessed hin => exact .inr (hit_kept hs haccessed hin)
  | miss haccessed hout _ hrun =>
    have hstored := stored_missedInHbm (s := s) (e := e) hs
    have hused := hstored.hbmUsed_eq hout (missedInHbm_hbmBlocks hs)
    have hpinned := hstored.pinnedBytes_eq hout (missedInHbm_hbmBlocks hs)
    have hmoved : movedBlock sim s e = some (accessedBlock s e) := if_pos ⟨haccessed, hout⟩
    exact .inl ⟨_, hmoved, _, _, _, hrun, hstored.consistent hs, hused, hpinned, rfl⟩
  | prefetched haccepted hrun =>
    have hstored := stored_prefetchedInHbm (s := s) (e := e)
    have hused := hstored.hbmUsed_eq haccepted.2.2.1 rfl
    have hpinned := hstored.pinnedBytes_eq haccepted.2.2.1 rfl
    have hno : ¬Misses s e := fun hmisses => by simp [Misses, haccepted.1] at hmisses
    have hmoved : movedBlock sim s e = some e.intent := by
      rw [movedBlock, if_neg hno, if_pos haccepted]
    exact .inl ⟨_, hmoved, _, _, _, hrun, hstored.consistent hs, hused, hpinned, rfl⟩
  | markedUnknown _ hget => exact .inr (storeBlock_kept _ (hs.notMem_hbm hget))
  | annotated _ hget => exact .inr (annotated_kept hget)
  | spilled _ hget => exact .inr (spilled_kept hs hget)
  | prefetchDeclined _ _ hout => exact .inr (storeBlock_kept _ hout)
  | evicted => exact .inr (evicted_kept s e _)
  | freed => exact .inr (freed_kept s e)
  | unchanged => exact .inr (unchanged_kept s e)

/-- What a covered move leaves in HBM is below the demand. -/
theorem Moved.hbmUsed_le (h : Moved sim order C s e t block)
    (hp : sim.policy.AccessBased ∨ sim.policy.IntentAware) (hcovers : DemandCovers sim s e)
    (hnonneg : 0 ≤ s.peakHbmDemandBytes) : t.hbmUsed ≤ s.peakHbmDemandBytes := by
  obtain ⟨entry, u, latency, hrun, hentry, hused, hpinned, ht⟩ := h.run
  rw [DemandCovers, h.moved] at hcovers
  rw [ht]
  rcases hcovers with hfits | ⟨hcapacity, hprotected⟩
  · have hle := hrun.hbmUsed_le hentry
    omega
  · rcases hrun.leaves hp hentry with hle | hzero | ⟨hprotects, hle⟩
    · omega
    · omega
    · have hbelow := hprotected hprotects
      omega

/-- An allocation records at least what HBM holds after it. -/
theorem Dispatched.hbmUsed_le_of_allocated (h : Dispatched sim order C s e t latency) (hs : s.Consistent)
    (htype : e.eventType = .allocated) :
    t.hbmUsed ≤ t.peakHbmDemandBytes ∧ s.peakHbmDemandBytes ≤ t.peakHbmDemandBytes := by
  have hstored := (stored_storeAllocated (s := s) (e := e)).consistent hs
  have hdemand : (storeAllocated s e.intent).peakHbmDemandBytes = max s.peakHbmDemandBytes
      ((storeAllocated s e.intent).hbmUsed +
        if e.intent.currentTier = .hbm then e.intent.sizeBytes else 0) := rfl
  rcases h.of_allocated htype with ⟨htier, u, hrun, rfl⟩ | ⟨htier, hused, hsame⟩
  · have hentry := (stored_allocatedInHbm (s := s) (e := e)).consistent hs
    have hsame : u.recordUsage.peakHbmDemandBytes = (storeAllocated s e.intent).peakHbmDemandBytes :=
      (hrun.frame hentry).peakHbmDemandBytes
    have hle : u.recordUsage.hbmUsed ≤ (allocatedInHbm s e).hbmUsed := hrun.hbmUsed_le hentry
    -- the id may be in HBM already, with another size
    have hinsert : (allocatedInHbm s e).hbmUsed ≤
        (storeAllocated s e.intent).hbmUsed + (storeAllocated s e.intent).sizeOf e.objectId :=
      SimulatorState.usedBytes_insert_le hstored _ _
    have hsize : (storeAllocated s e.intent).sizeOf e.objectId = e.intent.sizeBytes :=
      SimulatorState.sizeOf_of_get? (OrderedDict.get?_set_self ..)
    rw [if_pos htier] at hdemand
    rw [hsame, hdemand]
    exact ⟨le_max_of_le_right (by omega), le_max_left _ _⟩
  · rw [if_neg htier, add_zero] at hdemand
    rw [hused, hsame, hdemand]
    exact ⟨le_max_right _ _, le_max_left _ _⟩

/-- HBM is below its recorded use, and the use below the demand. -/
structure DemandBounds (s : SimulatorState) : Prop where
  used : s.hbmUsed ≤ s.actualPeakHbmUsedBytes
  nonneg : 0 ≤ s.actualPeakHbmUsedBytes
  bounds : s.actualPeakHbmUsedBytes ≤ s.peakHbmDemandBytes

theorem runEvent_demandBounds (hp : sim.policy.AccessBased ∨ sim.policy.IntentAware) (hs : s.Consistent)
    (hbounds : DemandBounds s) (hcovers : DemandCovers sim s e) (h : sim.runEvent order s e = .ok s') :
    DemandBounds s' := by
  have hpeak := runEvent_actualPeak hs hbounds.used h
  obtain ⟨t, latency, hd, ht, hsettled⟩ := runEvent_ok hs victimsMeet_true h
  have hdemand : s'.peakHbmDemandBytes = t.peakHbmDemandBytes := by rw [hsettled.eq]
  have hbelow : t.hbmUsed ≤ t.peakHbmDemandBytes ∧ s.peakHbmDemandBytes ≤ t.peakHbmDemandBytes := by
    by_cases htype : e.eventType = .allocated
    · exact hd.hbmUsed_le_of_allocated hs htype
    · rw [hd.peakHbmDemand hs htype]
      refine ⟨?_, le_refl _⟩
      rcases hd.moved_or_kept hs htype with ⟨block, hmoved⟩ | hkept
      · exact hmoved.hbmUsed_le hp hcovers (hbounds.nonneg.trans hbounds.bounds)
      · have hle := hkept.hbmUsed_le (fun _ _ hk => hk.1) hs ht
        exact hle.trans (hbounds.used.trans hbounds.bounds)
  refine ⟨?_, ?_, ?_⟩
  · rw [hpeak]
    exact le_max_left _ _
  · rw [hpeak]
    exact le_max_of_le_right hbounds.nonneg
  · rw [hpeak, hdemand, hsettled.hbmUsed_eq]
    exact max_le hbelow.1 (hbounds.bounds.trans hbelow.2)

/-- In a run whose moves into HBM are all covered, the demand so far is at least the use so far
after every event, and what is saved is their difference. -/
theorem demand_bounds_use {events pre : List MemoryIntentEvent}
    (hp : sim.policy.AccessBased ∨ sim.policy.IntentAware)
    (hcovers : Replay.Meets (sim.runEvent order) (DemandCovers sim) SimulatorState.initial events)
    (hpre : pre <+: events) (h : sim.replay order SimulatorState.initial pre = .ok s) :
    s.actualPeakHbmUsedBytes ≤ s.peakHbmDemandBytes ∧
      ∀ result, sim.result s pre = .ok result →
        result.hbmBytesSaved = result.peakHbmDemandBytes - result.actualPeakHbmUsedBytes := by
  have hinitial : DemandBounds SimulatorState.initial := ⟨le_refl _, le_refl _, le_refl _⟩
  have hbounds : DemandBounds s := by
    refine replay_invariant hinitial ?_ hcovers hpre h
    intro s e s' hs hbounds hcovers hstep
    exact runEvent_demandBounds hp hs hbounds hcovers hstep
  refine ⟨hbounds.bounds, fun result hresult => ?_⟩
  rw [result_eq] at hresult
  cases hresult
  exact max_eq_left (sub_nonneg.mpr hbounds.bounds)

/-- The access at the end brings a block back, and the demand of the three is above the capacity. -/
theorem demand_bounds_use_pressure :
    ∃ s, (pressured LRUPolicy).replay SetOrder.fastestFirst SimulatorState.initial pressureTrace = .ok s ∧
      (s.actualPeakHbmUsedBytes ≤ s.peakHbmDemandBytes ∧
        ∀ result, (pressured LRUPolicy).result s pressureTrace = .ok result →
          result.hbmBytesSaved = result.peakHbmDemandBytes - result.actualPeakHbmUsedBytes) ∧
      s.missCount = 1 := by
  obtain ⟨s, h, hcheck⟩ := Replay.exists_of_check
    (x := (pressured LRUPolicy).replay SetOrder.fastestFirst SimulatorState.initial pressureTrace)
    (p := fun s => decide (s.missCount = 1)) (by decide +kernel)
  have hcovers : Replay.Meets ((pressured LRUPolicy).runEvent SetOrder.fastestFirst)
      (DemandCovers (pressured LRUPolicy)) SimulatorState.initial pressureTrace := by decide +kernel
  exact ⟨s, h, demand_bounds_use (.inl .lru) hcovers (List.prefix_refl _) h, of_decide_eq_true hcheck⟩

/-- The first access to a block that was never allocated is used without a demand. -/
theorem demand_below_use :
    ∃ s result, (pressured LRUPolicy).run SetOrder.fastestFirst SimulatorState.initial
        [sampleEvent 0 .accessed (sampleIntent "a" {.hbm, .dram} .hbm)] = .ok (s, result) ∧
      ¬s.actualPeakHbmUsedBytes ≤ s.peakHbmDemandBytes ∧
      result.hbmBytesSaved ≠ result.peakHbmDemandBytes - result.actualPeakHbmUsedBytes := by
  obtain ⟨⟨s, result⟩, h, hcheck⟩ := Replay.exists_of_check
    (x := (pressured LRUPolicy).run SetOrder.fastestFirst SimulatorState.initial
      [sampleEvent 0 .accessed (sampleIntent "a" {.hbm, .dram} .hbm)])
    (p := fun run => decide (¬run.1.actualPeakHbmUsedBytes ≤ run.1.peakHbmDemandBytes ∧
      run.2.hbmBytesSaved ≠ run.2.peakHbmDemandBytes - run.2.actualPeakHbmUsedBytes)) (by decide +kernel)
  exact ⟨s, result, h, of_decide_eq_true hcheck⟩

end KVMemorySimulator

end KVMemoryIntent
