-- SUMMARY: DRAM capacity: the capacity loop respects it, and the events that place blocks in DRAM without checking it.
import KVDeadlineScheduler.Simulator.Residency

/-!
# The DRAM capacity

The capacity loop moves a victim to DRAM only when it fits. An allocation into
DRAM, an explicit spill, and a merge that resizes a block already in DRAM do not
look at the capacity. `PlacementFits` asks that they would have fitted.
-/

namespace KVMemoryIntent

namespace KVMemorySimulator

variable {sim : KVMemorySimulator} {order : SetOrder} {s s' t : SimulatorState}
  {e : MemoryIntentEvent} {latency : ℤ} {C : SimulatorState → MemoryIntent → Prop}

/-! ## Placements outside the loop -/

/-- The bytes in DRAM with a block of the given size under `id`. -/
def dramWith (s : SimulatorState) (id : String) (sizeBytes : ℤ) : ℤ :=
  s.usedBytes (s.dramBlocks.erase id) + sizeBytes

/-- What the event itself leaves in DRAM fits, before any block is displaced: the
block of an allocation into DRAM, of an explicit spill, and of an allocation or
a declined prefetch that resizes a block in DRAM. -/
structure PlacementFits (sim : KVMemorySimulator) (s : SimulatorState) (e : MemoryIntentEvent) :
    Prop where
  allocated : e.eventType = .allocated →
    e.intent.currentTier = .dram ∨ e.objectId ∈ s.dramBlocks →
    dramWith s e.objectId e.intent.sizeBytes ≤ sim.dramCapacityBytes
  spilled : e.eventType = .spilled → ∀ b ∈ s.liveBlocks.get? e.objectId, .dram ∈ b.allowedTiers →
    dramWith s e.objectId b.sizeBytes ≤ sim.dramCapacityBytes
  declined : e.eventType = .prefetched → e.objectId ∈ s.dramBlocks → e.objectId ∉ s.hbmBlocks →
    sim.policy.shouldPrefetch e.intent e.step = false →
    dramWith s e.objectId e.intent.sizeBytes ≤ sim.dramCapacityBytes

instance : Decidable (PlacementFits sim s e) :=
  decidable_of_iff
    ((e.eventType = .allocated → e.intent.currentTier = .dram ∨ e.objectId ∈ s.dramBlocks →
        dramWith s e.objectId e.intent.sizeBytes ≤ sim.dramCapacityBytes) ∧
      (e.eventType = .spilled → ∀ b ∈ s.liveBlocks.get? e.objectId, .dram ∈ b.allowedTiers →
        dramWith s e.objectId b.sizeBytes ≤ sim.dramCapacityBytes) ∧
      (e.eventType = .prefetched → e.objectId ∈ s.dramBlocks → e.objectId ∉ s.hbmBlocks →
        sim.policy.shouldPrefetch e.intent e.step = false →
        dramWith s e.objectId e.intent.sizeBytes ≤ sim.dramCapacityBytes))
    ⟨fun ⟨h₁, h₂, h₃⟩ => ⟨h₁, h₂, h₃⟩, fun ⟨h₁, h₂, h₃⟩ => ⟨h₁, h₂, h₃⟩⟩

/-- DRAM with one block stored holds at most the other blocks and that one. -/
theorem Stored.dramUsed_le {block : MemoryIntent} (h : Stored s e block t) (hs : s.Consistent) :
    t.dramUsed ≤ dramWith s e.objectId block.sizeBytes := by
  have hsub : t.dramBlocks ⊆ insert e.objectId (s.dramBlocks.erase e.objectId) := by
    intro id hin
    rcases Finset.mem_insert.mp (h.dram_subset hin) with heq | hin
    · exact heq ▸ Finset.mem_insert_self _ _
    · rcases eq_or_ne id e.objectId with heq | hne
      · exact heq ▸ Finset.mem_insert_self _ _
      · exact Finset.mem_insert_of_mem (Finset.mem_erase.mpr ⟨hne, hin⟩)
  have hothers : t.usedBytes (s.dramBlocks.erase e.objectId) = s.usedBytes (s.dramBlocks.erase e.objectId) := by
    refine SimulatorState.usedBytes_congr fun id hin => ?_
    unfold SimulatorState.sizeOf
    rw [h.liveBlocks, OrderedDict.get?_set_of_ne _ _ (Finset.ne_of_mem_erase hin)]
  have hblock : t.sizeOf e.objectId = block.sizeBytes := by
    apply SimulatorState.sizeOf_of_get?
    rw [h.liveBlocks, OrderedDict.get?_set_self]
  calc t.dramUsed
      ≤ t.usedBytes (insert e.objectId (s.dramBlocks.erase e.objectId)) :=
        (h.consistent hs).usedBytes_mono hsub
    _ = block.sizeBytes + t.usedBytes (s.dramBlocks.erase e.objectId) := by
        rw [← hblock]
        exact Finset.sum_insert (Finset.notMem_erase _ _)
    _ = dramWith s e.objectId block.sizeBytes := by
        rw [hothers, add_comm]
        rfl

/-- DRAM only loses blocks, and the ones that stay keep their sizes. -/
theorem dramUsed_le_of_subset (hs : s.Consistent) (hsub : t.dramBlocks ⊆ s.dramBlocks)
    (hsize : ∀ id ∈ t.dramBlocks, t.sizeOf id = s.sizeOf id) : t.dramUsed ≤ s.dramUsed := by
  unfold SimulatorState.dramUsed
  rw [SimulatorState.usedBytes_congr hsize]
  exact hs.usedBytes_mono hsub

/-- The stored block is not in DRAM. -/
theorem Stored.dramUsed_le_of_notMem {block : MemoryIntent} (h : Stored s e block t) (hs : s.Consistent)
    (hsub : t.dramBlocks ⊆ s.dramBlocks) (hnot : e.objectId ∉ t.dramBlocks) : t.dramUsed ≤ s.dramUsed := by
  refine dramUsed_le_of_subset hs hsub fun id hin => ?_
  have hne : id ≠ e.objectId := fun heq => hnot (heq ▸ hin)
  unfold SimulatorState.sizeOf
  rw [h.liveBlocks, OrderedDict.get?_set_of_ne _ _ hne]

/-- The stored block has the size of the one it replaces. -/
theorem Stored.dramUsed_le_of_resized {block existing : MemoryIntent} (h : Stored s e block t)
    (hs : s.Consistent) (hsub : t.dramBlocks ⊆ s.dramBlocks)
    (hget : s.liveBlocks.get? e.objectId = some existing)
    (hsize : block.sizeBytes = existing.sizeBytes) : t.dramUsed ≤ s.dramUsed := by
  refine dramUsed_le_of_subset hs hsub fun id _ => ?_
  unfold SimulatorState.sizeOf
  rw [h.liveBlocks, OrderedDict.get?_set]
  split
  · rename_i heq
    rw [heq, hget]
    exact hsize
  · rfl

/-! ## The loop -/

theorem CapacityRun.dramUsed_le {currentStep : ℤ} (h : CapacityRun sim order currentStep C s latency s')
    (hs : s.Consistent) (hfits : s.dramUsed ≤ sim.dramCapacityBytes) :
    s'.dramUsed ≤ sim.dramCapacityBytes := by
  induction h with
  | fits => exact hfits
  | allPinned => exact hfits
  | noVictim => exact hfits
  | displace hcheck _ _ ih =>
    have hmem := victim_mem_candidates hcheck
    have hframe := displaceVictim_frame sim currentStep hs hmem
    apply ih (hframe.consistent hs)
    unfold SimulatorState.dramUsed
    rw [SimulatorState.usedBytes_congr fun id _ => hframe.sizeOf_eq id, displaceVictim_dramBlocks]
    split
    · -- the only displacement that adds to DRAM has checked the room
      rename_i hspills
      have hsize := SimulatorState.sizeOf_of_get? (SetOrder.get?_of_mem_candidates hs hmem).2
      refine (SimulatorState.usedBytes_insert_le hs _ _).trans ?_
      rw [hsize]
      exact hspills.2
    · exact (hs.usedBytes_erase_le _ _).trans hfits

/-! ## Events and runs -/

theorem Dispatched.dramUsed_le (h : Dispatched sim order C s e t latency) (hs : s.Consistent)
    (hfits : s.dramUsed ≤ sim.dramCapacityBytes) (hplacement : PlacementFits sim s e) :
    t.dramUsed ≤ sim.dramCapacityBytes := by
  have hallocated : ∀ u, e.eventType = .allocated → Stored s e e.intent u →
      u.dramBlocks = s.dramBlocks → u.dramUsed ≤ sim.dramCapacityBytes := by
    intro u htype hstored hdram
    -- the allocated block counts only if its id is in DRAM already
    by_cases hin : e.objectId ∈ s.dramBlocks
    · exact (hstored.dramUsed_le hs).trans (hplacement.allocated htype (.inr hin))
    · exact (hstored.dramUsed_le_of_notMem hs hdram.subset (hdram ▸ hin)).trans hfits
  cases h with
  | allocatedHbm htype _ hrun =>
    have hentry := hallocated (allocatedInHbm s e) htype stored_allocatedInHbm rfl
    exact hrun.dramUsed_le (stored_allocatedInHbm.consistent hs) hentry
  | allocatedDram htype htier =>
    exact (stored_allocatedInDram.dramUsed_le hs).trans (hplacement.allocated htype (.inl htier))
  | allocatedOther htype =>
    exact hallocated (storeAllocated s e.intent) htype stored_storeAllocated rfl
  | hit _ hin hvalid =>
    obtain ⟨b, hb⟩ := hs.hbm_live _ hin
    have hstored := stored_storeBlock (s := s) (accessedBlock_objectId hs) hvalid.toSound
    refine (hstored.dramUsed_le_of_resized hs (Finset.Subset.refl _) hb ?_).trans hfits
    simp only [accessedBlock, hb, Option.getD_some, touch]
  | miss _ _ _ hrun =>
    have hstored := stored_missedInHbm (s := s) (e := e) hs
    have hdram := missedInHbm_dramBlocks (s := s) (e := e) hs
    refine hrun.dramUsed_le (hstored.consistent hs) (le_trans ?_ hfits)
    apply hstored.dramUsed_le_of_notMem hs
    · rw [hdram]
      exact Finset.erase_subset _ _
    · rw [hdram]
      exact Finset.notMem_erase _ _
  | markedUnknown _ hget =>
    have hout : e.objectId ∉ s.dramBlocks := hs.notMem_dram hget
    exact (stored_markedUnknown.dramUsed_le_of_notMem hs (Finset.Subset.refl _) hout).trans hfits
  | annotated _ hget hvalid =>
    have hid := (annotate_objectId e _).trans (hs.objectId_eq _ _ hget)
    have hstored := stored_storeBlock (s := s) hid hvalid.toSound
    exact (hstored.dramUsed_le_of_resized hs (Finset.Subset.refl _) hget (annotate_sizeBytes e _)).trans hfits
  | spilled htype hget hallowed =>
    have hroom := hplacement.spilled htype _ hget hallowed
    exact ((stored_spilled hs hget).dramUsed_le hs).trans hroom
  | prefetchDeclined htype hget hout hdeclined =>
    have hstored : Stored s e e.intent (storeBlock s e e.intent) :=
      stored_storeBlock rfl e.intent_valid.toSound
    by_cases hin : e.objectId ∈ s.dramBlocks
    · exact (hstored.dramUsed_le hs).trans (hplacement.declined htype hin hout hdeclined)
    · exact (hstored.dramUsed_le_of_notMem hs (Finset.Subset.refl _) hin).trans hfits
  | prefetched _ hrun =>
    have hstored := stored_prefetchedInHbm (s := s) (e := e)
    refine hrun.dramUsed_le (hstored.consistent hs) (le_trans ?_ hfits)
    exact hstored.dramUsed_le_of_notMem hs (Finset.erase_subset _ _) (Finset.notMem_erase _ _)
  | @evicted existing =>
    have hsub : (storeEvicted s existing).dramBlocks ⊆ s.dramBlocks := Finset.erase_subset _ _
    exact (dramUsed_le_of_subset hs hsub fun _ _ => rfl).trans hfits
  | freed =>
    have hsub : (runFreed s e.intent).dramBlocks ⊆ s.dramBlocks := Finset.erase_subset _ _
    refine (dramUsed_le_of_subset hs hsub fun id hin => ?_).trans hfits
    unfold SimulatorState.sizeOf runFreed
    rw [OrderedDict.get?_erase_of_ne _ (Finset.ne_of_mem_erase hin)]
  | unchanged => exact hfits

theorem runEvent_dramUsed_le (hs : s.Consistent) (hfits : s.dramUsed ≤ sim.dramCapacityBytes)
    (hplacement : PlacementFits sim s e) (h : sim.runEvent order s e = .ok s') :
    s'.dramUsed ≤ sim.dramCapacityBytes := by
  obtain ⟨t, latency, hd, -, hsettled⟩ := runEvent_ok hs victimsMeet_true h
  unfold SimulatorState.dramUsed
  rw [hsettled.usedBytes_eq, hsettled.dramBlocks]
  exact hd.dramUsed_le hs hfits hplacement

/-- In every run whose placements outside the loop fit, DRAM is within its
capacity after every event. -/
theorem dram_within_capacity {events pre : List MemoryIntentEvent} (hcap : 0 ≤ sim.dramCapacityBytes)
    (hplacement : Replay.Meets (sim.runEvent order) (PlacementFits sim) SimulatorState.initial events)
    (hpre : pre <+: events) (h : sim.replay order SimulatorState.initial pre = .ok s) :
    s.dramUsed ≤ sim.dramCapacityBytes := by
  refine replay_invariant (P := fun s => s.dramUsed ≤ sim.dramCapacityBytes) hcap ?_ hplacement hpre h
  intro s e s' hs hfits hplacement hstep
  exact runEvent_dramUsed_le hs hfits hplacement hstep

theorem dram_within_capacity_pressure :
    ∃ s, (pressured LRUPolicy).replay SetOrder.fastestFirst SimulatorState.initial pressureTrace = .ok s ∧
      s.dramUsed ≤ 100 ∧ s.dramUsed = 10 := by
  obtain ⟨s, h, hcheck⟩ := Replay.exists_of_check
    (x := (pressured LRUPolicy).replay SetOrder.fastestFirst SimulatorState.initial pressureTrace)
    (p := fun s => decide (s.dramUsed = 10)) (by decide +kernel)
  exact ⟨s, h, dram_within_capacity (by decide) (by decide +kernel) (List.prefix_refl _) h,
    of_decide_eq_true hcheck⟩

/-- A block is allocated in HBM and spilled by an explicit event. -/
def spilledTrace : List MemoryIntentEvent :=
  [sampleEvent 0 .allocated (sampleIntent "a" {.hbm, .dram} .hbm),
    sampleEvent 1 .spilled (sampleIntent "a" {.hbm, .dram} .hbm)]

/-- The spill goes through although DRAM has room for five bytes only. -/
theorem spilled_over_capacity :
    ∃ s, ({ pressured LRUPolicy with dramCapacityBytes := 5 } : KVMemorySimulator).replay
        SetOrder.fastestFirst SimulatorState.initial spilledTrace = .ok s ∧ ¬s.dramUsed ≤ 5 := by
  obtain ⟨s, h, hcheck⟩ := Replay.exists_of_check
    (x := ({ pressured LRUPolicy with dramCapacityBytes := 5 } : KVMemorySimulator).replay
      SetOrder.fastestFirst SimulatorState.initial spilledTrace)
    (p := fun s => decide (¬s.dramUsed ≤ 5)) (by decide +kernel)
  exact ⟨s, h, of_decide_eq_true hcheck⟩

end KVMemorySimulator

end KVMemoryIntent
