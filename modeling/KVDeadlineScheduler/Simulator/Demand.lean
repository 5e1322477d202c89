-- SUMMARY: The peak of the HBM demand: only allocations raise it, and allocations that fit raise it to what they occupy.
import KVDeadlineScheduler.Simulator.Effects

/-!
# HBM demand

The demand is recorded when a block is allocated, before anything is displaced for
it. A run of allocations that fits into HBM displaces nothing, so the demand at its
end is what was used before and all that was allocated.
-/

namespace KVMemoryIntent

namespace KVMemorySimulator

variable {sim : KVMemorySimulator} {order : SetOrder} {s s' t : SimulatorState}
  {e : MemoryIntentEvent} {latency : ℤ} {C : SimulatorState → MemoryIntent → Prop}

/-! ## Other events -/

theorem Dispatched.peakHbmDemand (h : Dispatched sim order C s e t latency) (hs : s.Consistent)
    (htype : e.eventType ≠ .allocated) : t.peakHbmDemandBytes = s.peakHbmDemandBytes := by
  cases h with
  | allocatedHbm hallocated => exact absurd hallocated htype
  | allocatedDram hallocated => exact absurd hallocated htype
  | allocatedOther hallocated => exact absurd hallocated htype
  | miss _ _ _ hrun => exact (hrun.frame ((stored_missedInHbm hs).consistent hs)).peakHbmDemandBytes
  | prefetched _ hrun => exact (hrun.frame (stored_prefetchedInHbm.consistent hs)).peakHbmDemandBytes
  | _ => rfl

/-- Only an allocation changes the demand. -/
theorem runEvent_peakHbmDemand (hs : s.Consistent) (htype : e.eventType ≠ .allocated)
    (h : sim.runEvent order s e = .ok s') : s'.peakHbmDemandBytes = s.peakHbmDemandBytes := by
  obtain ⟨t, latency, hd, -, hsettled⟩ := runEvent_ok hs victimsMeet_true h
  rw [hsettled.eq]
  exact hd.peakHbmDemand hs htype

theorem replay_peakHbmDemand {events : List MemoryIntentEvent} (hs : s.Consistent)
    (htype : ∀ e ∈ events, e.eventType ≠ .allocated) (h : sim.replay order s events = .ok s') :
    s'.peakHbmDemandBytes = s.peakHbmDemandBytes := by
  induction events generalizing s with
  | nil =>
    cases h
    rfl
  | cons e events ih =>
    obtain ⟨u, hstep, hrest⟩ := Replay.run_cons_ok.mp h
    rw [← runEvent_peakHbmDemand hs (htype e List.mem_cons_self) hstep]
    exact ih (runEvent_consistent hs hstep) (fun e' he' => htype e' (List.mem_cons_of_mem e he')) hrest

/-! ## Allocations that fit -/

theorem usedBytes_storeAllocated {ids : Finset String} (hnew : e.objectId ∉ ids) :
    (storeAllocated s e.intent).usedBytes ids = s.usedBytes ids := by
  refine SimulatorState.usedBytes_congr fun id hid => ?_
  have hne : id ≠ e.intent.objectId := by
    rintro rfl
    exact hnew hid
  unfold SimulatorState.sizeOf storeAllocated
  rw [OrderedDict.get?_set_of_ne _ _ hne]

/-- A block stored under an id that HBM does not hold leaves the blocks in HBM alone. -/
theorem Stored.get?_of_mem {block : MemoryIntent} {id : String} (h : Stored s e block t)
    (hout : e.objectId ∉ s.hbmBlocks) (hin : id ∈ s.hbmBlocks) :
    t.liveBlocks.get? id = s.liveBlocks.get? id := by
  have hne : id ≠ e.objectId := by
    rintro rfl
    exact hout hin
  rw [h.liveBlocks, OrderedDict.get?_set_of_ne _ _ hne]

/-- One block more in HBM. -/
theorem Stored.hbmUsed_eq {block : MemoryIntent} (h : Stored s e block t) (hout : e.objectId ∉ s.hbmBlocks)
    (hhbm : t.hbmBlocks = insert e.objectId s.hbmBlocks) : t.hbmUsed = s.hbmUsed + block.sizeBytes := by
  have hself : t.sizeOf e.objectId = block.sizeBytes := by
    apply SimulatorState.sizeOf_of_get?
    rw [h.liveBlocks, OrderedDict.get?_set_self]
  rw [SimulatorState.hbmUsed, SimulatorState.usedBytes, hhbm, Finset.sum_insert hout, hself, add_comm]
  congr 1
  refine SimulatorState.usedBytes_congr fun id hin => ?_
  rw [SimulatorState.sizeOf, SimulatorState.sizeOf, h.get?_of_mem hout hin]

theorem allocatedInHbm_hbmUsed (hnew : e.objectId ∉ s.hbmBlocks) :
    (allocatedInHbm s e).hbmUsed = s.hbmUsed + e.intent.sizeBytes :=
  stored_allocatedInHbm.hbmUsed_eq hnew rfl

theorem Ignored.not_allocated (h : Ignored s e) : e.eventType ≠ .allocated := by
  cases h with
  | miss htype => simp [htype]
  | unknown htype => rcases htype with htype | htype | htype | htype | htype <;> simp [htype]
  | spillDenied htype => simp [htype]
  | resident htype => simp [htype]

/-- An allocation in HBM enters the capacity loop, any other leaves HBM as it is. -/
theorem Dispatched.of_allocated (h : Dispatched sim order C s e t latency)
    (htype : e.eventType = .allocated) :
    (e.intent.currentTier = .hbm ∧
      ∃ u, CapacityRun sim order e.step C (allocatedInHbm s e) latency u ∧ t = u.recordUsage) ∨
    (e.intent.currentTier ≠ .hbm ∧ t.hbmUsed = (storeAllocated s e.intent).hbmUsed ∧
      t.peakHbmDemandBytes = (storeAllocated s e.intent).peakHbmDemandBytes) := by
  cases h with
  | allocatedHbm _ htier hrun => exact .inl ⟨htier, _, hrun, rfl⟩
  | allocatedDram _ htier => exact .inr ⟨by simp [htier], rfl, rfl⟩
  | allocatedOther _ htier => exact .inr ⟨htier, rfl, rfl⟩
  | hit haccessed => simp [htype] at haccessed
  | miss haccessed => simp [htype] at haccessed
  | markedUnknown hmarked => simp [htype] at hmarked
  | annotated hannotated => rcases hannotated with h | h | h <;> simp [htype] at h
  | spilled hspilled => simp [htype] at hspilled
  | prefetchDeclined hprefetched => simp [htype] at hprefetched
  | prefetched haccepted => exact absurd (htype.symm.trans haccepted.1) (by simp)
  | evicted hevicted => simp [htype] at hevicted
  | freed hfreed => simp [htype] at hfreed
  | unchanged hignored => exact absurd htype hignored.not_allocated

/-- A loop that is entered within the capacity does nothing. -/
theorem CapacityRun.eq_of_le {currentStep : ℤ} (h : CapacityRun sim order currentStep C s latency t)
    (hle : s.hbmUsed ≤ sim.hbmCapacityBytes) : t = s := by
  have hfits : sim.checkCapacity order s currentStep = .fits := checkCapacity_of_le hle
  cases h with
  | fits => rfl
  | allPinned hcheck => rw [hfits] at hcheck; cases hcheck
  | noVictim hcheck => rw [hfits] at hcheck; cases hcheck
  | displace hcheck => rw [hfits] at hcheck; cases hcheck

/-- An allocation that fits. -/
theorem runEvent_allocated_fits (hs : s.Consistent) (htype : e.eventType = .allocated)
    (htier : e.intent.currentTier = .hbm) (hnew : e.objectId ∉ s.hbmBlocks)
    (hfits : s.hbmUsed + e.intent.sizeBytes ≤ sim.hbmCapacityBytes)
    (h : sim.runEvent order s e = .ok s') :
    s'.hbmBlocks = insert e.objectId s.hbmBlocks ∧ s'.hbmUsed = s.hbmUsed + e.intent.sizeBytes ∧
      s'.peakHbmDemandBytes = max s.peakHbmDemandBytes (s.hbmUsed + e.intent.sizeBytes) := by
  obtain ⟨t, latency, hd, -, hsettled⟩ := runEvent_ok hs victimsMeet_true h
  obtain ⟨-, u, hrun, ht⟩ := (hd.of_allocated htype).resolve_right fun hother => hother.1 htier
  have hused := allocatedInHbm_hbmUsed hnew
  have hu : u = allocatedInHbm s e := hrun.eq_of_le (hused.trans_le hfits)
  subst hu
  refine ⟨?_, ?_, ?_⟩
  · rw [hsettled.hbmBlocks, ht]
    rfl
  · rw [hsettled.hbmUsed_eq, ht]
    exact hused
  · rw [hsettled.eq, ht]
    -- the demand is taken before the id is in HBM
    have hbefore : (storeAllocated s e.intent).usedBytes s.hbmBlocks = s.hbmUsed :=
      usedBytes_storeAllocated hnew
    have hdemand : (allocatedInHbm s e).peakHbmDemandBytes = max s.peakHbmDemandBytes
        ((storeAllocated s e.intent).usedBytes s.hbmBlocks +
          if e.intent.currentTier = .hbm then e.intent.sizeBytes else 0) := rfl
    rw [if_pos htier, hbefore] at hdemand
    exact hdemand

/-- A run of allocations of different objects that fit. -/
theorem replay_allocated_fits {events : List MemoryIntentEvent} (hs : s.Consistent)
    (htype : ∀ e ∈ events, e.eventType = .allocated ∧ e.intent.currentTier = .hbm)
    (hnew : ∀ e ∈ events, e.objectId ∉ s.hbmBlocks)
    (hdistinct : events.Pairwise fun a b => a.objectId ≠ b.objectId)
    (hfits : s.hbmUsed + (events.map fun e => e.intent.sizeBytes).sum ≤ sim.hbmCapacityBytes)
    (hpeak : s.hbmUsed ≤ s.peakHbmDemandBytes) (h : sim.replay order s events = .ok s') :
    s'.peakHbmDemandBytes =
      max s.peakHbmDemandBytes (s.hbmUsed + (events.map fun e => e.intent.sizeBytes).sum) := by
  induction events generalizing s with
  | nil =>
    cases h
    simp [hpeak]
  | cons e events ih =>
    obtain ⟨u, hstep, hrest⟩ := Replay.run_cons_ok.mp h
    rw [List.pairwise_cons] at hdistinct
    rw [List.map_cons, List.sum_cons, ← add_assoc] at hfits ⊢
    have hsizes : 0 ≤ (events.map fun e => e.intent.sizeBytes).sum := by
      apply List.sum_nonneg
      intro size hsize
      obtain ⟨e', -, rfl⟩ := List.mem_map.mp hsize
      exact e'.intent_valid.sizeBytes_pos.le
    obtain ⟨hallocated, htier⟩ := htype e List.mem_cons_self
    obtain ⟨hblocks, hused, hdemand⟩ := runEvent_allocated_fits hs hallocated htier
      (hnew e List.mem_cons_self) (by omega) hstep
    have hrec := ih (runEvent_consistent hs hstep) (fun e' he' => htype e' (List.mem_cons_of_mem e he'))
      (fun e' he' => ?_) hdistinct.2 (by rw [hused]; exact hfits)
      (by rw [hused, hdemand]; exact le_max_right _ _)
      hrest
    · rw [hrec, hused, hdemand]
      omega
    · rw [hblocks, Finset.mem_insert, not_or]
      exact ⟨(hdistinct.1 e' he').symm, hnew e' (List.mem_cons_of_mem e he')⟩

end KVMemorySimulator

end KVMemoryIntent
