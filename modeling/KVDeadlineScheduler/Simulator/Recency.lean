-- SUMMARY: LRU and the block that was just accessed: when it is in HBM after the access.
import KVDeadlineScheduler.Simulator.Blocks
import KVDeadlineScheduler.Simulator.Displacement
import KVDeadlineScheduler.Simulator.HbmBound

/-!
# What LRU keeps

In a trace whose steps do not go back, the block of an access is among the most
recently accessed ones. It competes only with the blocks that were accessed at the
same step: of these LRU displaces the larger first, and then the one with the smaller
id.
-/

namespace KVMemoryIntent

namespace KVMemorySimulator

variable {sim : KVMemorySimulator} {order : SetOrder} {s s' t : SimulatorState}
  {e : MemoryIntentEvent} {latency : ℤ} {C : SimulatorState → MemoryIntent → Prop}

/-! ## Accesses -/

/-- An access is a hit, which moves nothing, or brings its block into HBM. -/
theorem Dispatched.of_accessed (h : Dispatched sim order C s e t latency)
    (htype : e.eventType = .accessed) :
    (e.objectId ∈ s.hbmBlocks ∧ t.hbmBlocks = s.hbmBlocks) ∨
      (e.objectId ∉ s.hbmBlocks ∧ ∃ u l, CapacityRun sim order e.step C (missedInHbm s e) l u ∧
        t.hbmBlocks = u.hbmBlocks) := by
  cases h with
  | hit _ hin => exact .inl ⟨hin, rfl⟩
  | miss _ hout _ hrun => exact .inr ⟨hout, _, _, hrun, rfl⟩
  | annotated hother => rcases hother with hother | hother | hother <;> simp [htype] at hother
  | prefetched haccepted => simp [haccepted.1] at htype
  | unchanged hignored => exact absurd htype hignored.not_accessed
  | allocatedHbm hother => simp [htype] at hother
  | allocatedDram hother => simp [htype] at hother
  | allocatedOther hother => simp [htype] at hother
  | markedUnknown hother => simp [htype] at hother
  | spilled hother => simp [htype] at hother
  | prefetchDeclined hother => simp [htype] at hother
  | evicted hother => simp [htype] at hother
  | freed hother => simp [htype] at hother

/-! ## Access steps -/

/-- No event up to the step `bound` stamps a block with a later one. -/
theorem keptBy_lastAccessStep {bound : ℤ} (hstep : e.step ≤ bound)
    (hlast : e.intent.lastAccessStep ≤ bound) : KeptBy (fun b => b.lastAccessStep ≤ bound) e where
  intent := hlast
  marked := hlast
  annotated b hb := (annotate_lastAccessStep e b).trans_le hb
  touched _ _ := hstep
  retiered a b h ha := by
    obtain ⟨tier, rfl⟩ := h
    exact ha
  aged a b h ha := by
    obtain ⟨r, -, rfl⟩ := h
    exact ha

/-- The live block `id` was accessed at the step of the event as well, and LRU keeps it
longer than the block of the event. -/
def KeptLonger (s : SimulatorState) (e : MemoryIntentEvent) (id : String) : Prop :=
  ∃ b ∈ s.liveBlocks.get? id, b.lastAccessStep = e.step ∧
    (b.sizeBytes < (accessedBlock s e).sizeBytes ∨
      b.sizeBytes = (accessedBlock s e).sizeBytes ∧ e.objectId < id)

instance (s : SimulatorState) (e : MemoryIntentEvent) (id : String) : Decidable (KeptLonger s e id) :=
  inferInstanceAs (Decidable (∃ b ∈ s.liveBlocks.get? id, b.lastAccessStep = e.step ∧
    (b.sizeBytes < (accessedBlock s e).sizeBytes ∨
      b.sizeBytes = (accessedBlock s e).sizeBytes ∧ e.objectId < id)))

/-- Among blocks that were accessed no later than `x`, those LRU does not displace
before `x`. -/
theorem not_lru_before_iff {b x : MemoryIntent} (hlast : b.lastAccessStep ≤ x.lastAccessStep)
    (hne : b.objectId ≠ x.objectId) :
    ¬LRUPolicy.key b < LRUPolicy.key x ↔ b.lastAccessStep = x.lastAccessStep ∧
      (b.sizeBytes < x.sizeBytes ∨ b.sizeBytes = x.sizeBytes ∧ x.objectId < b.objectId) := by
  simp only [not_lt, LRUPolicy.key, Prod.Lex.toLex_le_toLex]
  constructor
  · rintro (hlater | ⟨hsame, hlarger | ⟨hsize, hle⟩⟩)
    · exact absurd hlast (not_le.mpr hlater)
    · exact ⟨hsame.symm, .inl (by omega)⟩
    · exact ⟨hsame.symm, .inr ⟨by omega, lt_of_le_of_ne hle (Ne.symm hne)⟩⟩
  · rintro ⟨hsame, hsmaller | ⟨hsize, hlt⟩⟩
    · exact .inr ⟨hsame.symm, .inl (by omega)⟩
    · exact .inr ⟨hsame.symm, .inr ⟨by omega, hlt.le⟩⟩

/-- The blocks that outlast the block of an access under LRU. -/
theorem outlasting_lru (hs : s.Consistent) (hlast : EachBlock (fun b => b.lastAccessStep ≤ e.step) s)
    (hout : e.objectId ∉ s.hbmBlocks) :
    outlasting (fun _ => false) (fun a b => LRUPolicy.key a < LRUPolicy.key b) s
      { accessedBlock s e with currentTier := .hbm } = s.hbmBlocks.filter (KeptLonger s e) := by
  refine Finset.filter_congr fun id hin => ?_
  obtain ⟨b, hb⟩ := hs.hbm_live id hin
  have hid : b.objectId = id := hs.objectId_eq id b hb
  have hobject : (accessedBlock s e).objectId = e.objectId := accessedBlock_objectId hs
  have hne : b.objectId ≠ (accessedBlock s e).objectId := by
    rw [hid, hobject]
    rintro rfl
    exact hout hin
  have hkey := not_lru_before_iff (x := { accessedBlock s e with currentTier := .hbm })
    (hlast id b hb) hne
  simp only [KeptLonger, hb, Option.mem_some_iff, exists_eq_left', Bool.false_eq_true, false_or]
  rw [hkey, hid, hobject]
  rfl

/-! ## Runs -/

theorem runEvent_accessed_lru (hpolicy : sim.policy = LRUPolicy) (hs : s.Consistent)
    (hlast : EachBlock (fun b => b.lastAccessStep ≤ e.step) s) (htype : e.eventType = .accessed)
    (h : sim.runEvent order s e = .ok s') :
    e.objectId ∈ s'.hbmBlocks ↔ e.objectId ∈ s.hbmBlocks ∨
      (accessedBlock s e).sizeBytes + s.usedBytes (s.hbmBlocks.filter (KeptLonger s e)) ≤
        sim.hbmCapacityBytes := by
  obtain ⟨t, latency, hd, -, hsettled⟩ := runEvent_ok hs victimsMeet_true h
  rw [hsettled.hbmBlocks]
  rcases hd.of_accessed htype with ⟨hin, hhbm⟩ | ⟨hout, u, l, hrun, hhbm⟩
  · rw [hhbm]
    exact iff_of_true hin (.inl hin)
  · have hby : sim.policy.DisplacesBy e.step (fun _ => false) _ := hpolicy ▸ LRUPolicy.displacesBy e.step
    have hplaced := hrun.placed_mem_iff hby hs (stored_missedInHbm hs) (missedInHbm_hbmBlocks hs) hout rfl
    rw [outlasting_lru hs hlast hout] at hplaced
    rw [hhbm, or_iff_right hout]
    exact hplaced

/-- Under LRU, in a trace whose steps do not go back and whose intents are not stamped
with later steps, the block of an access is in HBM after the event if and only if it
was there before, or fits together with the resident blocks that were accessed at the
same step and that LRU keeps longer: smaller ones, and those of its size with a greater
id. -/
theorem accessed_block_resident_iff {events pre : List MemoryIntentEvent}
    (hpolicy : sim.policy = LRUPolicy) (hsteps : (events.map MemoryIntentEvent.step).Pairwise (· ≤ ·))
    (hstamps : ∀ e ∈ events, e.intent.lastAccessStep ≤ e.step) (hpre : pre ++ [e] <+: events)
    (hreach : sim.replay order .initial pre = .ok s) (htype : e.eventType = .accessed)
    (h : sim.runEvent order s e = .ok s') :
    e.objectId ∈ s'.hbmBlocks ↔ e.objectId ∈ s.hbmBlocks ∨
      (accessedBlock s e).sizeBytes + s.usedBytes (s.hbmBlocks.filter (KeptLonger s e)) ≤
        sim.hbmCapacityBytes := by
  have hbefore : ∀ x ∈ pre, x.step ≤ e.step := by
    intro x hx
    have hpairs := hsteps.sublist (hpre.sublist.map MemoryIntentEvent.step)
    rw [List.map_append, List.pairwise_append] at hpairs
    exact hpairs.2.2 _ (List.mem_map_of_mem hx) _ (by simp)
  have hlast : EachBlock (fun b => b.lastAccessStep ≤ e.step) s := by
    refine replay_eachBlock (fun x hx => ?_) hreach
    have hstamp := hstamps x (hpre.subset (List.mem_append_left _ hx))
    exact keptBy_lastAccessStep (hbefore x hx) (hstamp.trans (hbefore x hx))
  exact runEvent_accessed_lru hpolicy (replay_consistent SimulatorState.consistent_initial hreach) hlast
    htype h

/-- Two blocks that are accessed at one step and fit into ten bytes one at a time. -/
def sharedStepAccess (objectId : String) (sizeBytes : ℤ) : MemoryIntentEvent :=
  sampleEvent 0 .accessed
    { sampleIntent objectId {.hbm, .dram} .hbm with sizeBytes := sizeBytes }

def lruTenBytes : KVMemorySimulator where
  policy := LRUPolicy
  hbmCapacityBytes := 10
  dramCapacityBytes := 100

/-- The second of the two accesses. -/
theorem shared_step_check :
    ∃ s s', lruTenBytes.replay .fastestFirst .initial [sharedStepAccess "a" 6] = .ok s ∧
      lruTenBytes.runEvent .fastestFirst s (sharedStepAccess "b" 8) = .ok s' ∧
      (sharedStepAccess "b" 8).objectId ∉ s'.hbmBlocks ∧
      (accessedBlock s (sharedStepAccess "b" 8)).sizeBytes ≤ lruTenBytes.hbmCapacityBytes := by
  obtain ⟨⟨s, s'⟩, h, hcheck⟩ := Replay.exists_of_check
    (x := do
      let s ← lruTenBytes.replay .fastestFirst .initial [sharedStepAccess "a" 6]
      let s' ← lruTenBytes.runEvent .fastestFirst s (sharedStepAccess "b" 8)
      pure (s, s'))
    (p := fun r => decide ((sharedStepAccess "b" 8).objectId ∉ r.2.hbmBlocks ∧
      (accessedBlock r.1 (sharedStepAccess "b" 8)).sizeBytes ≤ lruTenBytes.hbmCapacityBytes))
    (by decide +kernel)
  obtain ⟨s₀, hreplay, h⟩ := Replay.bind_eq_ok.mp h
  obtain ⟨s₁, hstep, h⟩ := Replay.bind_eq_ok.mp h
  cases h
  exact ⟨s, s', hreplay, hstep, of_decide_eq_true hcheck⟩

theorem accessed_block_resident_iff_shared :
    ∃ s s', lruTenBytes.replay .fastestFirst .initial [sharedStepAccess "a" 6] = .ok s ∧
      lruTenBytes.runEvent .fastestFirst s (sharedStepAccess "b" 8) = .ok s' ∧
      ((sharedStepAccess "b" 8).objectId ∈ s'.hbmBlocks ↔
        (sharedStepAccess "b" 8).objectId ∈ s.hbmBlocks ∨
          (accessedBlock s (sharedStepAccess "b" 8)).sizeBytes +
            s.usedBytes (s.hbmBlocks.filter (KeptLonger s (sharedStepAccess "b" 8))) ≤
              lruTenBytes.hbmCapacityBytes) := by
  obtain ⟨s, s', hreplay, hstep, -⟩ := shared_step_check
  have hpre : [sharedStepAccess "a" 6] ++ [sharedStepAccess "b" 8] <+:
      [sharedStepAccess "a" 6, sharedStepAccess "b" 8] := List.prefix_refl _
  exact ⟨s, s', hreplay, hstep, accessed_block_resident_iff rfl (by decide +kernel) (by decide +kernel)
    hpre hreplay rfl hstep⟩

/-- A block that fits into HBM is displaced by its own access: it is larger than the
block that was accessed before it at the same step. -/
theorem accessed_block_displaced :
    ¬∀ (sim : KVMemorySimulator) (order : SetOrder) (events pre : List MemoryIntentEvent)
      (s s' : SimulatorState) (e : MemoryIntentEvent),
      sim.policy = LRUPolicy → (events.map MemoryIntentEvent.step).Pairwise (· ≤ ·) →
      (∀ e ∈ events, e.intent.lastAccessStep ≤ e.step) → pre ++ [e] <+: events →
      sim.replay order .initial pre = .ok s → e.eventType = .accessed →
      sim.runEvent order s e = .ok s' → (accessedBlock s e).sizeBytes ≤ sim.hbmCapacityBytes →
      e.objectId ∈ s'.hbmBlocks := by
  intro hall
  obtain ⟨s, s', hreplay, hstep, hout, hsize⟩ := shared_step_check
  exact hout (hall lruTenBytes .fastestFirst [sharedStepAccess "a" 6, sharedStepAccess "b" 8]
    [sharedStepAccess "a" 6] s s' _ rfl (by decide +kernel) (by decide +kernel) (List.prefix_refl _)
    hreplay rfl hstep hsize)

end KVMemorySimulator

end KVMemoryIntent
