-- SUMMARY: The capacity loop as a relation between states: what a displacement changes, what the loop leaves alone, and that it ends.
import KVDeadlineScheduler.Simulator.Stores

/-!
# The capacity loop

`CapacityRun` reads the loop of `_ensure_hbm_capacity` as a relation with one
rule for each way a pass can go. Facts about the loop are proved by induction on
it, so that neither the bound on the passes nor the branches of a pass are seen
again. Its parameter `C` is a condition that every displacement of the loop meets.
-/

namespace KVMemoryIntent

namespace KVMemorySimulator

variable {sim : KVMemorySimulator} {order : SetOrder} {s s' : SimulatorState} {currentStep : ℤ}
  {victim : MemoryIntent}

/-! ## One pass -/

theorem checkCapacity_fits (h : sim.checkCapacity order s currentStep = .fits) :
    s.hbmUsed ≤ sim.hbmCapacityBytes := by
  simp only [checkCapacity] at h
  split at h
  · assumption
  · split at h
    · cases h
    · split at h <;> cases h

theorem checkCapacity_of_le (h : s.hbmUsed ≤ sim.hbmCapacityBytes) :
    sim.checkCapacity order s currentStep = .fits := by
  rw [checkCapacity, if_pos h]

theorem checkCapacity_allPinned (h : sim.checkCapacity order s currentStep = .allPinned) :
    sim.hbmCapacityBytes < s.hbmUsed ∧ order.candidates s ≠ [] ∧
      (∀ b ∈ order.candidates s, b.pinRequested = true) ∧ sim.policy.protectsPinned = true := by
  simp only [checkCapacity] at h
  split at h
  · cases h
  · split at h
    · rename_i hover hpinned
      exact ⟨not_le.mp hover, hpinned.1, List.all_eq_true.mp hpinned.2.1, hpinned.2.2⟩
    · split at h <;> cases h

theorem checkCapacity_noVictim (h : sim.checkCapacity order s currentStep = .noVictim) :
    sim.hbmCapacityBytes < s.hbmUsed ∧
      sim.policy.chooseVictim (order.candidates s) sim.hbmCapacityBytes currentStep = none := by
  simp only [checkCapacity] at h
  split at h
  · cases h
  · split at h
    · cases h
    · rename_i hover _
      split at h
      · exact ⟨not_le.mp hover, by assumption⟩
      · cases h

theorem checkCapacity_displace (h : sim.checkCapacity order s currentStep = .displace victim) :
    sim.hbmCapacityBytes < s.hbmUsed ∧
      (sim.policy.protectsPinned = true → ∃ b ∈ order.candidates s, b.pinRequested = false) ∧
      sim.policy.chooseVictim (order.candidates s) sim.hbmCapacityBytes currentStep = some victim := by
  simp only [checkCapacity] at h
  split at h
  · cases h
  · split at h
    · cases h
    · rename_i hover hpinned
      split at h
      · cases h
      · rename_i v hv
        cases h
        refine ⟨not_le.mp hover, fun hp => ?_, hv⟩
        -- a policy that protects pins is asked only if not all candidates are pinned
        have hne : order.candidates s ≠ [] := List.ne_nil_of_mem (sim.policy.chooseVictim_mem hv)
        have hall : ¬(order.candidates s).all (·.pinRequested) = true :=
          fun ha => hpinned ⟨hne, ha, hp⟩
        simpa using hall

theorem victim_mem_candidates (h : sim.checkCapacity order s currentStep = .displace victim) :
    victim ∈ order.candidates s :=
  sim.policy.chooseVictim_mem (checkCapacity_displace h).2.2

/-- A loop that breaks for want of candidates has nothing in HBM. -/
theorem hbmUsed_eq_zero (hs : s.Consistent) (h : order.candidates s = []) : s.hbmUsed = 0 := by
  unfold SimulatorState.hbmUsed SimulatorState.usedBytes
  rw [SetOrder.candidates_eq_nil hs h, Finset.sum_empty]

/-! ## One displacement -/

/-- The victim goes to DRAM: its first fallback is DRAM and DRAM has room. -/
def Spills (sim : KVMemorySimulator) (order : SetOrder) (s : SimulatorState)
    (victim : MemoryIntent) : Prop :=
  targetTier order s victim = some .dram ∧ s.dramUsed + victim.sizeBytes ≤ sim.dramCapacityBytes

instance : Decidable (Spills sim order s victim) := inferInstanceAs (Decidable (_ ∧ _))

/-- The tier a displaced block is labelled with. -/
def displacedTier (order : SetOrder) (s : SimulatorState) (victim : MemoryIntent) : Tier :=
  (targetTier order s victim).getD .nvme

/-- A displacement is a spill or an eviction, and logs itself with some reason. -/
theorem displaceVictim_cases (sim : KVMemorySimulator) (order : SetOrder) (s : SimulatorState)
    (victim : MemoryIntent) (currentStep : ℤ) :
    ∃ reason avoided,
      Spills sim order s victim ∧ sim.displaceVictim order s victim currentStep =
        (sim.logDecision (spillVictim (countDisplaced s victim) victim) currentStep .spill victim reason
          avoided, sim.spillLatencyUs) ∨
      ¬Spills sim order s victim ∧ sim.displaceVictim order s victim currentStep =
        (sim.logDecision (evictVictim (countDisplaced s victim) victim (displacedTier order s victim))
          currentStep .evict victim reason avoided, 0) := by
  by_cases hspill : Spills sim order s victim
  · exact ⟨_, _, .inl ⟨hspill, if_pos hspill⟩⟩
  · exact ⟨_, _, .inr ⟨hspill, if_neg hspill⟩⟩

theorem displaceVictim_liveBlocks :
    (sim.displaceVictim order s victim currentStep).1.liveBlocks =
      s.liveBlocks.set victim.objectId { victim with currentTier := displacedTier order s victim } := by
  obtain ⟨reason, avoided, ⟨hspill, h⟩ | ⟨-, h⟩⟩ := displaceVictim_cases sim order s victim currentStep
  · rw [h, displacedTier, hspill.1]
    rfl
  · rw [h]
    rfl

theorem displaceVictim_hbmBlocks :
    (sim.displaceVictim order s victim currentStep).1.hbmBlocks = s.hbmBlocks.erase victim.objectId := by
  obtain ⟨reason, avoided, ⟨-, h⟩ | ⟨-, h⟩⟩ := displaceVictim_cases sim order s victim currentStep
  · rw [h]
    rfl
  · rw [h]
    rfl

theorem displaceVictim_dramBlocks :
    (sim.displaceVictim order s victim currentStep).1.dramBlocks =
      if Spills sim order s victim then insert victim.objectId s.dramBlocks
      else s.dramBlocks.erase victim.objectId := by
  obtain ⟨reason, avoided, ⟨hspill, h⟩ | ⟨hspill, h⟩⟩ := displaceVictim_cases sim order s victim currentStep
  · rw [h, if_pos hspill]
    rfl
  · rw [h, if_neg hspill]
    rfl

theorem displaceVictim_latency :
    (sim.displaceVictim order s victim currentStep).2 =
      if Spills sim order s victim then sim.spillLatencyUs else 0 := by
  obtain ⟨reason, avoided, ⟨hspill, h⟩ | ⟨hspill, h⟩⟩ := displaceVictim_cases sim order s victim currentStep
  · rw [h, if_pos hspill]
  · rw [h, if_neg hspill]

theorem displaceVictim_spillCount :
    (sim.displaceVictim order s victim currentStep).1.spillCount =
      s.spillCount + if Spills sim order s victim then 1 else 0 := by
  obtain ⟨reason, avoided, ⟨hspill, h⟩ | ⟨hspill, h⟩⟩ := displaceVictim_cases sim order s victim currentStep
  · rw [h, if_pos hspill]
    rfl
  · rw [h, if_neg hspill]
    rfl

theorem displaceVictim_exhaustion :
    (sim.displaceVictim order s victim currentStep).1.capacityExhaustionEvents =
      s.capacityExhaustionEvents := by
  obtain ⟨reason, avoided, ⟨-, h⟩ | ⟨-, h⟩⟩ := displaceVictim_cases sim order s victim currentStep
  · rw [h]
    rfl
  · rw [h]
    rfl

theorem displaceVictim_pinnedExhaustion :
    (sim.displaceVictim order s victim currentStep).1.pinnedCapacityExhaustionEvents =
      s.pinnedCapacityExhaustionEvents := by
  obtain ⟨reason, avoided, ⟨-, h⟩ | ⟨-, h⟩⟩ := displaceVictim_cases sim order s victim currentStep
  · rw [h]
    rfl
  · rw [h]
    rfl

theorem displaceVictim_decodeCriticalEvictions :
    (sim.displaceVictim order s victim currentStep).1.decodeCriticalEvictions =
      s.decodeCriticalEvictions + if victim.isDecodeCritical then 1 else 0 := by
  have hcount : (countDisplaced s victim).decodeCriticalEvictions =
      s.decodeCriticalEvictions + if victim.isDecodeCritical then 1 else 0 := by
    simp only [countDisplaced]
    split <;> rfl
  rw [← hcount]
  obtain ⟨reason, avoided, ⟨-, h⟩ | ⟨-, h⟩⟩ := displaceVictim_cases sim order s victim currentStep
  · rw [h]
    rfl
  · rw [h]
    rfl

/-- A displacement logs one decision, about the victim. -/
theorem displaceVictim_decisionLog :
    ∃ action reason avoided, (sim.displaceVictim order s victim currentStep).1.decisionLog =
      s.decisionLog ++ [sim.decisionRecord currentStep action victim reason avoided] := by
  obtain ⟨reason, avoided, ⟨-, h⟩ | ⟨-, h⟩⟩ := displaceVictim_cases sim order s victim currentStep
  · exact ⟨.spill, reason, avoided, by rw [h]; rfl⟩
  · exact ⟨.evict, reason, avoided, by rw [h]; rfl⟩

/-- The entry reports that the block `id` was displaced. -/
def ReportsDisplaced (id : String) (r : DecisionRecord) : Prop :=
  r.victimObjectId = some id ∧ (r.action = .spill ∨ r.action = .evict)

theorem displaceVictim_reports :
    ∃ r, (sim.displaceVictim order s victim currentStep).1.decisionLog = s.decisionLog ++ [r] ∧
      ReportsDisplaced victim.objectId r := by
  obtain ⟨reason, avoided, ⟨-, h⟩ | ⟨-, h⟩⟩ := displaceVictim_cases sim order s victim currentStep <;> rw [h]
  · exact ⟨_, rfl, rfl, .inl rfl⟩
  · exact ⟨_, rfl, rfl, .inr rfl⟩

/-! ## Frame of the loop -/

/-- What the capacity loop cannot do: bring ids into HBM, change the live blocks
beyond their tier, or touch a block that was not displaced. -/
structure CapacityFrame (s s' : SimulatorState) : Prop where
  retiered : s.LiveRel SimulatorState.Retiered s'
  hbm_subset : s'.hbmBlocks ⊆ s.hbmBlocks
  dram_subset : s'.dramBlocks ⊆ s.dramBlocks ∪ s.hbmBlocks
  kept : ∀ id, (id ∈ s.hbmBlocks → id ∈ s'.hbmBlocks) →
    s'.liveBlocks.get? id = s.liveBlocks.get? id ∧ (id ∈ s'.dramBlocks ↔ id ∈ s.dramBlocks)
  prefetchCount : s'.prefetchCount = s.prefetchCount
  missCount : s'.missCount = s.missCount
  decodeCriticalMisses : s'.decodeCriticalMisses = s.decodeCriticalMisses
  latencies : s'.latencies = s.latencies
  peakHbmDemandBytes : s'.peakHbmDemandBytes = s.peakHbmDemandBytes
  actualPeakHbmUsedBytes : s'.actualPeakHbmUsedBytes = s.actualPeakHbmUsedBytes
  lastDecayStep : s'.lastDecayStep = s.lastDecayStep

theorem CapacityFrame.of_eq (hlive : s'.liveBlocks = s.liveBlocks) (hhbm : s'.hbmBlocks = s.hbmBlocks)
    (hdram : s'.dramBlocks = s.dramBlocks) (hprefetch : s'.prefetchCount = s.prefetchCount)
    (hmiss : s'.missCount = s.missCount)
    (hdc : s'.decodeCriticalMisses = s.decodeCriticalMisses) (hlat : s'.latencies = s.latencies)
    (hdemand : s'.peakHbmDemandBytes = s.peakHbmDemandBytes)
    (hpeak : s'.actualPeakHbmUsedBytes = s.actualPeakHbmUsedBytes)
    (hdecay : s'.lastDecayStep = s.lastDecayStep) : CapacityFrame s s' where
  retiered := .of_eq SimulatorState.Retiered.refl hlive
  hbm_subset := hhbm.subset
  dram_subset := by
    rw [hdram]
    exact Finset.subset_union_left
  kept id _ := by rw [hlive, hdram]; exact ⟨rfl, Iff.rfl⟩
  prefetchCount := hprefetch
  missCount := hmiss
  decodeCriticalMisses := hdc
  latencies := hlat
  peakHbmDemandBytes := hdemand
  actualPeakHbmUsedBytes := hpeak
  lastDecayStep := hdecay

theorem CapacityFrame.trans {s'' : SimulatorState} (h : CapacityFrame s s')
    (h' : CapacityFrame s' s'') : CapacityFrame s s'' where
  retiered := h.retiered.trans SimulatorState.Retiered.trans h'.retiered
  hbm_subset := h'.hbm_subset.trans h.hbm_subset
  dram_subset id hid := by
    rcases Finset.mem_union.mp (h'.dram_subset hid) with hd | hh
    · exact h.dram_subset hd
    · exact Finset.mem_union_right _ (h.hbm_subset hh)
  kept id hid := by
    have hmid : id ∈ s.hbmBlocks → id ∈ s'.hbmBlocks := fun hm => h'.hbm_subset (hid hm)
    obtain ⟨hlive, hdram⟩ := h.kept id hmid
    obtain ⟨hlive', hdram'⟩ := h'.kept id fun hm => hid (h.hbm_subset hm)
    exact ⟨hlive'.trans hlive, hdram'.trans hdram⟩
  prefetchCount := h'.prefetchCount.trans h.prefetchCount
  missCount := h'.missCount.trans h.missCount
  decodeCriticalMisses := h'.decodeCriticalMisses.trans h.decodeCriticalMisses
  latencies := h'.latencies.trans h.latencies
  peakHbmDemandBytes := h'.peakHbmDemandBytes.trans h.peakHbmDemandBytes
  actualPeakHbmUsedBytes := h'.actualPeakHbmUsedBytes.trans h.actualPeakHbmUsedBytes
  lastDecayStep := h'.lastDecayStep.trans h.lastDecayStep

theorem CapacityFrame.consistent (h : CapacityFrame s s') (hs : s.Consistent) : s'.Consistent := by
  refine h.retiered.consistent SimulatorState.Retiered.objectId SimulatorState.Retiered.sound hs
    (fun id hid => hs.hbm_live id (h.hbm_subset hid)) fun id hid => ?_
  rcases Finset.mem_union.mp (h.dram_subset hid) with hd | hh
  · exact hs.dram_live id hd
  · exact hs.hbm_live id hh

theorem CapacityFrame.sizeOf_eq (h : CapacityFrame s s') (id : String) : s'.sizeOf id = s.sizeOf id :=
  h.retiered.sizeOf_eq SimulatorState.Retiered.sizeBytes id

/-- A displacement stays within the frame. -/
theorem displaceVictim_frame (sim : KVMemorySimulator) (currentStep : ℤ) (hs : s.Consistent)
    (hv : victim ∈ order.candidates s) :
    CapacityFrame s (sim.displaceVictim order s victim currentStep).1 := by
  obtain ⟨hin, hget⟩ := SetOrder.get?_of_mem_candidates hs hv
  have hprops : ∀ s', s' = (sim.displaceVictim order s victim currentStep).1 →
      s'.prefetchCount = s.prefetchCount ∧ s'.missCount = s.missCount ∧
      s'.decodeCriticalMisses = s.decodeCriticalMisses ∧ s'.latencies = s.latencies ∧
      s'.peakHbmDemandBytes = s.peakHbmDemandBytes ∧
      s'.actualPeakHbmUsedBytes = s.actualPeakHbmUsedBytes ∧ s'.lastDecayStep = s.lastDecayStep := by
    rintro _ rfl
    obtain ⟨reason, avoided, ⟨-, h⟩ | ⟨-, h⟩⟩ := displaceVictim_cases sim order s victim currentStep
    · rw [h]
      exact ⟨rfl, rfl, rfl, rfl, rfl, rfl, rfl⟩
    · rw [h]
      exact ⟨rfl, rfl, rfl, rfl, rfl, rfl, rfl⟩
  obtain ⟨hprefetch, hmiss, hdc, hlat, hdemand, hpeak, hdecay⟩ := hprops _ rfl
  refine ⟨fun id => ?_, ?_, ?_, fun id hid => ?_, hprefetch, hmiss, hdc, hlat, hdemand, hpeak, hdecay⟩
  · rw [displaceVictim_liveBlocks, OrderedDict.get?_set]
    split
    · rename_i heq
      refine ⟨fun hn => ?_, fun b hb => ⟨_, rfl, ?_⟩⟩
      · rw [heq, hget] at hn
        cases hn
      · rw [heq, hget] at hb
        exact ⟨_, by rw [Option.some.inj hb]⟩
    · exact ⟨fun hn => hn, fun b hb => ⟨b, hb, .refl b⟩⟩
  · rw [displaceVictim_hbmBlocks]
    exact Finset.erase_subset _ _
  · rw [displaceVictim_dramBlocks]
    split
    · exact Finset.insert_subset (Finset.mem_union_right _ hin) Finset.subset_union_left
    · exact (Finset.erase_subset _ _).trans Finset.subset_union_left
  · -- an id that stays in HBM is not the victim's
    have hne : id ≠ victim.objectId := by
      rintro rfl
      have := hid hin
      rw [displaceVictim_hbmBlocks] at this
      exact Finset.notMem_erase _ _ this
    refine ⟨by rw [displaceVictim_liveBlocks, OrderedDict.get?_set_of_ne _ _ hne], ?_⟩
    rw [displaceVictim_dramBlocks]
    split <;> simp [hne]

/-! ## The loop -/

/-- The passes of the loop from a state, the latency they add, and the state at
the end. Each displacement meets `C`. -/
inductive CapacityRun (sim : KVMemorySimulator) (order : SetOrder) (currentStep : ℤ)
    (C : SimulatorState → MemoryIntent → Prop) : SimulatorState → ℤ → SimulatorState → Prop where
  | fits {s : SimulatorState} (h : sim.checkCapacity order s currentStep = .fits) :
      CapacityRun sim order currentStep C s 0 s
  | allPinned {s : SimulatorState} (h : sim.checkCapacity order s currentStep = .allPinned) :
      CapacityRun sim order currentStep C s 0 (sim.recordPinnedExhaustion s currentStep)
  | noVictim {s : SimulatorState} (h : sim.checkCapacity order s currentStep = .noVictim) :
      CapacityRun sim order currentStep C s 0 (recordExhaustion s)
  | displace {s s' : SimulatorState} {victim : MemoryIntent} {latency : ℤ}
      (h : sim.checkCapacity order s currentStep = .displace victim) (hC : C s victim)
      (hrest : CapacityRun sim order currentStep C
        (sim.displaceVictim order s victim currentStep).1 latency s') :
      CapacityRun sim order currentStep C s
        ((sim.displaceVictim order s victim currentStep).2 + latency) s'

/-- Every displacement the loop makes from `s` meets `C`, which is asked of the
state before the displacement and the victim. -/
def EachVictim (sim : KVMemorySimulator) (order : SetOrder)
    (C : SimulatorState → MemoryIntent → Prop) (currentStep : ℤ) : ℕ → SimulatorState → Prop
  | 0, _ => True
  | fuel + 1, s =>
    match sim.checkCapacity order s currentStep with
    | .displace victim =>
      C s victim ∧ EachVictim sim order C currentStep fuel
        (sim.displaceVictim order s victim currentStep).1
    | _ => True

instance EachVictim.decidable (C : SimulatorState → MemoryIntent → Prop)
    [∀ s victim, Decidable (C s victim)] :
    ∀ fuel s, Decidable (EachVictim sim order C currentStep fuel s)
  | 0, _ => .isTrue trivial
  | fuel + 1, s => by
    unfold EachVictim
    cases sim.checkCapacity order s currentStep with
    | displace victim =>
      have := EachVictim.decidable C fuel (sim.displaceVictim order s victim currentStep).1
      exact inferInstanceAs (Decidable (_ ∧ _))
    | fits => exact .isTrue trivial
    | allPinned => exact .isTrue trivial
    | noVictim => exact .isTrue trivial

theorem eachVictim_true (fuel : ℕ) (s : SimulatorState) :
    EachVictim sim order (fun _ _ => True) currentStep fuel s := by
  induction fuel generalizing s with
  | zero => trivial
  | succ fuel ih =>
    unfold EachVictim
    split
    · exact ⟨trivial, ih _⟩
    · trivial

/-- What holds of every displacement from a consistent state holds of every
displacement the loop makes. -/
theorem eachVictim_of_displace {C : SimulatorState → MemoryIntent → Prop}
    (himp : ∀ s victim, s.Consistent → sim.checkCapacity order s currentStep = .displace victim →
      C s victim) (fuel : ℕ) (hs : s.Consistent) : EachVictim sim order C currentStep fuel s := by
  induction fuel generalizing s with
  | zero => trivial
  | succ fuel ih =>
    unfold EachVictim
    cases hcheck : sim.checkCapacity order s currentStep with
    | displace victim =>
      have hframe := displaceVictim_frame sim currentStep hs (victim_mem_candidates hcheck)
      exact ⟨himp s victim hs hcheck, ih (hframe.consistent hs)⟩
    | fits => trivial
    | allPinned => trivial
    | noVictim => trivial

theorem capacityRun_of_loop {C : SimulatorState → MemoryIntent → Prop} {fuel : ℕ} {added total : ℤ}
    (hC : EachVictim sim order C currentStep fuel s)
    (h : sim.ensureHbmCapacityLoop order currentStep fuel s added = .ok (s', total)) :
    ∃ latency, total = added + latency ∧ CapacityRun sim order currentStep C s latency s' := by
  induction fuel generalizing s added with
  | zero => cases h
  | succ fuel ih =>
    unfold ensureHbmCapacityLoop at h
    unfold EachVictim at hC
    cases hcheck : sim.checkCapacity order s currentStep with
    | fits =>
      rw [hcheck] at h
      cases h
      exact ⟨0, (add_zero _).symm, .fits hcheck⟩
    | allPinned =>
      rw [hcheck] at h
      cases h
      exact ⟨0, (add_zero _).symm, .allPinned hcheck⟩
    | noVictim =>
      rw [hcheck] at h
      cases h
      exact ⟨0, (add_zero _).symm, .noVictim hcheck⟩
    | displace victim =>
      rw [hcheck] at h hC
      have hrest : sim.ensureHbmCapacityLoop order currentStep fuel
          (sim.displaceVictim order s victim currentStep).1
          (added + (sim.displaceVictim order s victim currentStep).2) = .ok (s', total) := h
      obtain ⟨latency, htotal, hrun⟩ := ih hC.2 hrest
      exact ⟨_, by rw [htotal, add_assoc], .displace hcheck hC.1 hrun⟩

/-- A call of `_ensure_hbm_capacity` is a run of the loop followed by the record
of the usage. -/
theorem capacityRun_of_ensure {C : SimulatorState → MemoryIntent → Prop} {latency : ℤ}
    (hC : EachVictim sim order C currentStep (capacityFuel s) s)
    (h : sim.ensureHbmCapacity order s currentStep = .ok (s', latency)) :
    ∃ t, CapacityRun sim order currentStep C s latency t ∧ s' = t.recordUsage := by
  obtain ⟨⟨t, total⟩, hloop, heq⟩ := Replay.bind_eq_ok.mp h
  cases heq
  obtain ⟨l, htotal, hrun⟩ := capacityRun_of_loop hC hloop
  rw [zero_add] at htotal
  exact ⟨t, htotal ▸ hrun, rfl⟩

theorem CapacityRun.frame {C : SimulatorState → MemoryIntent → Prop} {latency : ℤ}
    (h : CapacityRun sim order currentStep C s latency s') (hs : s.Consistent) :
    CapacityFrame s s' := by
  induction h with
  | fits => exact .of_eq rfl rfl rfl rfl rfl rfl rfl rfl rfl rfl
  | allPinned => exact .of_eq rfl rfl rfl rfl rfl rfl rfl rfl rfl rfl
  | noVictim => exact .of_eq rfl rfl rfl rfl rfl rfl rfl rfl rfl rfl
  | displace hcheck _ _ ih =>
    have hframe := displaceVictim_frame sim currentStep hs (victim_mem_candidates hcheck)
    exact hframe.trans (ih (hframe.consistent hs))

/-- From a consistent state the loop ends within its bound: each displacement
takes one id out of HBM. -/
theorem ensureHbmCapacityLoop_total (sim : KVMemorySimulator) (order : SetOrder) (currentStep : ℤ)
    {fuel : ℕ} (added : ℤ) (hs : s.Consistent) (hfuel : s.hbmBlocks.card < fuel) :
    ∃ s' total, sim.ensureHbmCapacityLoop order currentStep fuel s added = .ok (s', total) := by
  induction fuel generalizing s added with
  | zero => omega
  | succ fuel ih =>
    unfold ensureHbmCapacityLoop
    cases hcheck : sim.checkCapacity order s currentStep with
    | fits => exact ⟨_, _, rfl⟩
    | allPinned => exact ⟨_, _, rfl⟩
    | noVictim => exact ⟨_, _, rfl⟩
    | displace victim =>
      have hmem := victim_mem_candidates hcheck
      have hframe := displaceVictim_frame sim currentStep hs hmem
      -- one id less in HBM, so one pass less is enough
      have hlt := Finset.card_erase_lt_of_mem (SetOrder.get?_of_mem_candidates hs hmem).1
      apply ih _ (hframe.consistent hs)
      rw [displaceVictim_hbmBlocks]
      omega

theorem ensureHbmCapacity_total (sim : KVMemorySimulator) (order : SetOrder) (currentStep : ℤ)
    (hs : s.Consistent) :
    ∃ s' latency, sim.ensureHbmCapacity order s currentStep = .ok (s', latency) := by
  obtain ⟨t, total, h⟩ := ensureHbmCapacityLoop_total sim order currentStep 0 hs (Nat.lt_succ_self _)
  exact ⟨t.recordUsage, total, Replay.bind_eq_ok.mpr ⟨_, h, rfl⟩⟩

end KVMemorySimulator

end KVMemoryIntent
