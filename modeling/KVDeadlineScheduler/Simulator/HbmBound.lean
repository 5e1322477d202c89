-- SUMMARY: HBM capacity: the bound under access-based policies, and when intent-aware policies leave only pinned blocks above it.
import KVDeadlineScheduler.Simulator.Effects

/-!
# The HBM capacity

An event either goes through the capacity loop or leaves HBM with blocks that
were there before, at their old sizes (`HbmEffect`). Under an access-based policy
the loop ends within the capacity, under an intent-aware one it may also end with
nothing but pinned blocks. An access that clears a pin does not run the loop.
-/

namespace KVMemoryIntent

namespace KVMemorySimulator

variable {sim : KVMemorySimulator} {order : SetOrder} {s s' t : SimulatorState}
  {e : MemoryIntentEvent} {latency : ℤ} {C : SimulatorState → MemoryIntent → Prop}

/-- An allocation names an object that is not live. -/
def FreshAllocation (s : SimulatorState) (e : MemoryIntentEvent) : Prop :=
  e.eventType = .allocated → s.liveBlocks.get? e.objectId = none

instance : Decidable (FreshAllocation s e) := by
  unfold FreshAllocation
  infer_instance

/-! ## How an event reaches HBM -/

/-- A block that stays in HBM keeps its size, and its pin unless the event is a
hit that asks for no pin. -/
def KeptInHbm (s : SimulatorState) (e : MemoryIntentEvent) (b b' : MemoryIntent) : Prop :=
  b'.sizeBytes = b.sizeBytes ∧
    ((e.eventType = .accessed → e.objectId ∈ s.hbmBlocks → e.intent.pinRequested = true) →
      b.pinRequested = true → b'.pinRequested = true)

/-- The event ran the capacity loop, or HBM holds what is left of what it held. -/
inductive HbmEffect (sim : KVMemorySimulator) (order : SetOrder)
    (C : SimulatorState → MemoryIntent → Prop) (s : SimulatorState) (e : MemoryIntentEvent)
    (t : SimulatorState) : Prop where
  | enforced {entry u : SimulatorState} {latency : ℤ} (hentry : entry.Consistent)
      (hrun : CapacityRun sim order e.step C entry latency u) (hlive : t.liveBlocks = u.liveBlocks)
      (hhbm : t.hbmBlocks = u.hbmBlocks)
      (hexhausted : entry.capacityExhaustionEvents = s.capacityExhaustionEvents ∧
        t.capacityExhaustionEvents = u.capacityExhaustionEvents)
  | kept (hkept : s.ResidentRel (KeptInHbm s e) t)
      (hexhausted : t.capacityExhaustionEvents = s.capacityExhaustionEvents)

theorem keptInHbm_refl (s : SimulatorState) (e : MemoryIntentEvent) (b : MemoryIntent) :
    KeptInHbm s e b b :=
  ⟨rfl, fun _ hpin => hpin⟩

theorem keptInHbm_annotate (s : SimulatorState) (e : MemoryIntentEvent) (b : MemoryIntent) :
    KeptInHbm s e b (annotate e b) := by
  unfold annotate
  split
  · exact ⟨rfl, fun _ _ => rfl⟩
  · exact ⟨rfl, fun _ hpin => hpin⟩
  · exact ⟨rfl, fun _ hpin => hpin⟩
  · exact keptInHbm_refl s e b

/-! ### Events that bring nothing into HBM -/

section Kept

variable {existing : MemoryIntent}

/-- A block stored under an id that HBM does not hold. -/
theorem storeBlock_kept (block : MemoryIntent) (hout : e.objectId ∉ s.hbmBlocks) :
    s.ResidentRel (KeptInHbm s e) (storeBlock s e block) :=
  .of_set (keptInHbm_refl s e) rfl (Finset.Subset.refl _) fun hin => absurd hin hout

theorem annotated_kept (hget : s.liveBlocks.get? e.objectId = some existing) :
    s.ResidentRel (KeptInHbm s e) (storeBlock s e (annotate e existing)) :=
  .of_set (keptInHbm_refl s e) rfl (Finset.Subset.refl _) fun _ =>
    ⟨existing, hget, keptInHbm_annotate s e existing⟩

/-- A hit changes the pin of its block only. -/
theorem hit_kept (hs : s.Consistent) (htype : e.eventType = .accessed) (hin : e.objectId ∈ s.hbmBlocks) :
    s.ResidentRel (KeptInHbm s e) (storeBlock s e (accessedBlock s e)).recordUsage := by
  refine .of_set (keptInHbm_refl s e) rfl (Finset.Subset.refl _) fun _ => ?_
  obtain ⟨b, hb⟩ := hs.hbm_live _ hin
  refine ⟨b, hb, ?_, fun hpin _ => hpin htype hin⟩
  simp only [accessedBlock, hb, Option.getD_some, touch]

theorem spilled_kept (hs : s.Consistent) (hget : s.liveBlocks.get? e.objectId = some existing) :
    s.ResidentRel (KeptInHbm s e) (storeSpilled s { existing with currentTier := .dram }) := by
  refine .of_set (keptInHbm_refl s e) (stored_spilled hs hget).liveBlocks (Finset.erase_subset _ _)
    fun hin => ?_
  exact absurd (hs.objectId_eq _ _ hget).symm (Finset.ne_of_mem_erase hin)

theorem evicted_kept (s : SimulatorState) (e : MemoryIntentEvent) (existing : MemoryIntent) :
    s.ResidentRel (KeptInHbm s e) (storeEvicted s existing) :=
  .of_eq (keptInHbm_refl s e) rfl (Finset.erase_subset _ _)

theorem freed_kept (s : SimulatorState) (e : MemoryIntentEvent) :
    s.ResidentRel (KeptInHbm s e) (runFreed s e.intent) := by
  refine ⟨Finset.erase_subset _ _, fun id hin b' hb' => ⟨b', ?_, keptInHbm_refl s e b'⟩⟩
  exact (OrderedDict.get?_erase_of_ne _ (Finset.ne_of_mem_erase hin)).symm.trans hb'

theorem unchanged_kept (s : SimulatorState) (e : MemoryIntentEvent) :
    s.ResidentRel (KeptInHbm s e) s :=
  .of_eq (keptInHbm_refl s e) rfl (Finset.Subset.refl _)

end Kept

theorem Dispatched.hbmEffect (h : Dispatched sim order C s e t latency) (hs : s.Consistent)
    (hfresh : FreshAllocation s e) : HbmEffect sim order C s e t := by
  cases h with
  | allocatedHbm _ _ hrun =>
    exact .enforced (stored_allocatedInHbm.consistent hs) hrun rfl rfl ⟨rfl, rfl⟩
  | allocatedDram htype =>
    refine .kept (.of_set (keptInHbm_refl s e) rfl (Finset.Subset.refl _) fun hin => ?_) rfl
    exact absurd hin (hs.notMem_hbm (hfresh htype))
  | allocatedOther htype =>
    refine .kept (.of_set (keptInHbm_refl s e) rfl (Finset.Subset.refl _) fun hin => ?_) rfl
    exact absurd hin (hs.notMem_hbm (hfresh htype))
  | hit htype hin => exact .kept (hit_kept hs htype hin) rfl
  | miss _ _ _ hrun =>
    exact .enforced ((stored_missedInHbm hs).consistent hs) hrun rfl rfl ⟨rfl, rfl⟩
  | markedUnknown _ hget => exact .kept (storeBlock_kept _ (hs.notMem_hbm hget)) rfl
  | annotated _ hget => exact .kept (annotated_kept hget) rfl
  | spilled _ hget => exact .kept (spilled_kept hs hget) rfl
  | prefetchDeclined _ _ hout => exact .kept (storeBlock_kept _ hout) rfl
  | prefetched _ hrun =>
    exact .enforced (stored_prefetchedInHbm.consistent hs) hrun rfl rfl ⟨rfl, rfl⟩
  | evicted => exact .kept (evicted_kept s e _) rfl
  | freed => exact .kept (freed_kept s e) rfl
  | unchanged => exact .kept (unchanged_kept s e) rfl

/-! ### The recorded peak -/

/-- The usage after the event is recorded, or the event brings nothing into HBM. -/
theorem Dispatched.recorded_or_kept (h : Dispatched sim order C s e t latency) (hs : s.Consistent) :
    t.actualPeakHbmUsedBytes = max s.actualPeakHbmUsedBytes t.hbmUsed ∨
      t.actualPeakHbmUsedBytes = s.actualPeakHbmUsedBytes ∧ s.ResidentRel (KeptInHbm s e) t := by
  cases h with
  | allocatedHbm _ _ hrun =>
    have hpeak := (hrun.frame (stored_allocatedInHbm.consistent hs)).actualPeakHbmUsedBytes
    exact .inl (congrArg (max · _) hpeak)
  | miss _ _ _ hrun =>
    have hpeak := (hrun.frame ((stored_missedInHbm hs).consistent hs)).actualPeakHbmUsedBytes
    exact .inl (congrArg (max · _) hpeak)
  | prefetched _ hrun =>
    have hpeak := (hrun.frame (stored_prefetchedInHbm.consistent hs)).actualPeakHbmUsedBytes
    exact .inl (congrArg (max · _) hpeak)
  | allocatedDram => exact .inl rfl
  | allocatedOther => exact .inl rfl
  | hit => exact .inl rfl
  | markedUnknown _ hget => exact .inr ⟨rfl, storeBlock_kept _ (hs.notMem_hbm hget)⟩
  | annotated _ hget => exact .inr ⟨rfl, annotated_kept hget⟩
  | spilled _ hget => exact .inr ⟨rfl, spilled_kept hs hget⟩
  | prefetchDeclined _ _ hout => exact .inr ⟨rfl, storeBlock_kept _ hout⟩
  | evicted => exact .inr ⟨rfl, evicted_kept s e _⟩
  | freed => exact .inr ⟨rfl, freed_kept s e⟩
  | unchanged => exact .inr ⟨rfl, unchanged_kept s e⟩

/-- The recorded peak is no more than the peak before and the usage after. -/
theorem Dispatched.actualPeak_le (h : Dispatched sim order C s e t latency) (hs : s.Consistent) :
    t.actualPeakHbmUsedBytes ≤ max s.actualPeakHbmUsedBytes t.hbmUsed := by
  rcases h.recorded_or_kept hs with hrecorded | ⟨hsame, -⟩
  · exact hrecorded.le
  · exact hsame.trans_le (le_max_left _ _)

/-! ## Access-based policies -/

/-- The loop of an access-based policy ends within the capacity: it only breaks
early when HBM is empty. -/
theorem CapacityRun.fits_of_accessBased {currentStep : ℤ} (hp : sim.policy.AccessBased)
    (hcap : 0 ≤ sim.hbmCapacityBytes) (h : CapacityRun sim order currentStep C s latency s')
    (hs : s.Consistent) :
    s'.hbmUsed ≤ sim.hbmCapacityBytes ∧ s'.capacityExhaustionEvents = s.capacityExhaustionEvents := by
  induction h with
  | fits hcheck => exact ⟨checkCapacity_fits hcheck, rfl⟩
  | allPinned hcheck =>
    have hprotects := (checkCapacity_allPinned hcheck).2.2.2
    rw [hp.protectsPinned] at hprotects
    cases hprotects
  | noVictim hcheck =>
    -- no candidates means nothing in HBM, which is within any capacity
    obtain ⟨hover, hnone⟩ := checkCapacity_noVictim hcheck
    have hempty := hbmUsed_eq_zero hs (hp.eq_nil_of_none hnone)
    omega
  | displace hcheck _ _ ih =>
    have hframe := displaceVictim_frame sim currentStep hs (victim_mem_candidates hcheck)
    obtain ⟨hused, hexhausted⟩ := ih (hframe.consistent hs)
    exact ⟨hused, hexhausted.trans displaceVictim_exhaustion⟩

/-- Usage and peak are within the capacity and the loop has never given up. -/
structure WithinCapacity (sim : KVMemorySimulator) (s : SimulatorState) : Prop where
  used : s.hbmUsed ≤ sim.hbmCapacityBytes
  peak : s.actualPeakHbmUsedBytes ≤ sim.hbmCapacityBytes
  exhaustion : s.capacityExhaustionEvents = 0

theorem runEvent_withinCapacity (hp : sim.policy.AccessBased) (hcap : 0 ≤ sim.hbmCapacityBytes)
    (hs : s.Consistent) (hw : WithinCapacity sim s) (hfresh : FreshAllocation s e)
    (h : sim.runEvent order s e = .ok s') : WithinCapacity sim s' := by
  obtain ⟨t, latency, hd, ht, hsettled⟩ := runEvent_ok hs victimsMeet_true h
  have hused : t.hbmUsed ≤ sim.hbmCapacityBytes ∧ t.capacityExhaustionEvents = 0 := by
    cases hd.hbmEffect hs hfresh with
    | enforced hentry hrun hlive hhbm hexhausted =>
      obtain ⟨hfits, hsame⟩ := hrun.fits_of_accessBased hp hcap hentry
      refine ⟨le_trans (le_of_eq ?_) hfits, ?_⟩
      · exact SimulatorState.hbmUsed_congr hlive hhbm
      · rw [hexhausted.2, hsame, hexhausted.1, hw.exhaustion]
    | kept hkept hexhausted =>
      -- outside the loop usage only falls
      have hle := hkept.hbmUsed_le (fun _ _ hk => hk.1) hs ht
      exact ⟨hle.trans hw.used, hexhausted.trans hw.exhaustion⟩
  have hused' : s'.hbmUsed = t.hbmUsed := hsettled.hbmUsed_eq
  have hpeak : s'.actualPeakHbmUsedBytes = t.actualPeakHbmUsedBytes := by rw [hsettled.eq]
  refine ⟨hused'.trans_le hused.1, ?_, ?_⟩
  · rw [hpeak]
    exact (hd.actualPeak_le hs).trans (max_le hw.peak hused.1)
  · rw [hsettled.eq]
    exact hused.2

/-- Under an access-based policy, after every event of a trace that allocates no
live object, HBM is within its capacity, so is the recorded peak, and the loop
has never given up. -/
theorem hbm_within_capacity {events pre : List MemoryIntentEvent} (hp : sim.policy.AccessBased)
    (hcap : 0 ≤ sim.hbmCapacityBytes)
    (hfresh : Replay.Meets (sim.runEvent order) FreshAllocation SimulatorState.initial events)
    (hpre : pre <+: events) (h : sim.replay order SimulatorState.initial pre = .ok s) :
    s.hbmUsed ≤ sim.hbmCapacityBytes ∧ s.actualPeakHbmUsedBytes ≤ sim.hbmCapacityBytes ∧
      s.capacityExhaustionEvents = 0 := by
  have hinitial : WithinCapacity sim SimulatorState.initial := ⟨hcap, hcap, rfl⟩
  have hw : WithinCapacity sim s := by
    refine replay_invariant hinitial ?_ hfresh hpre h
    intro s e s' hs hw hfresh hstep
    exact runEvent_withinCapacity hp hcap hs hw hfresh hstep
  exact ⟨hw.used, hw.peak, hw.exhaustion⟩

/-- Three blocks of ten bytes pass through an HBM of twenty. -/
def pressureTrace : List MemoryIntentEvent :=
  [sampleEvent 0 .allocated (sampleIntent "a" {.hbm, .dram} .hbm),
    sampleEvent 1 .allocated (sampleIntent "b" {.hbm, .dram} .hbm),
    sampleEvent 2 .allocated (sampleIntent "c" {.hbm, .dram} .hbm),
    sampleEvent 3 .accessed (sampleIntent "a" {.hbm, .dram} .hbm)]

def pressured (policy : PlacementPolicy) : KVMemorySimulator where
  policy := policy
  hbmCapacityBytes := 20
  dramCapacityBytes := 100

theorem hbm_within_capacity_pressure :
    ∃ s, (pressured LRUPolicy).replay SetOrder.fastestFirst SimulatorState.initial pressureTrace = .ok s ∧
      (s.hbmUsed ≤ 20 ∧ s.actualPeakHbmUsedBytes ≤ 20 ∧ s.capacityExhaustionEvents = 0) ∧
      s.spillCount = 2 := by
  obtain ⟨s, h, hcheck⟩ := Replay.exists_of_check
    (x := (pressured LRUPolicy).replay SetOrder.fastestFirst SimulatorState.initial pressureTrace)
    (p := fun s => decide (s.spillCount = 2)) (by decide +kernel)
  exact ⟨s, h, hbm_within_capacity .lru (by decide) (by decide +kernel) (List.prefix_refl _) h,
    of_decide_eq_true hcheck⟩

/-! ## Intent-aware policies -/

/-- HBM is over its capacity only while every resident block is pinned. -/
def OverOnlyPinned (sim : KVMemorySimulator) (s : SimulatorState) : Prop :=
  s.hbmUsed ≤ sim.hbmCapacityBytes ∨
    ∀ id ∈ s.hbmBlocks, ∀ b, s.liveBlocks.get? id = some b → b.pinRequested = true

theorem CapacityRun.overOnlyPinned {currentStep : ℤ} (hp : sim.policy.IntentAware)
    (hcap : 0 ≤ sim.hbmCapacityBytes) (h : CapacityRun sim order currentStep C s latency s')
    (hs : s.Consistent) : OverOnlyPinned sim s' := by
  induction h with
  | fits hcheck => exact .inl (checkCapacity_fits hcheck)
  | allPinned hcheck =>
    refine .inr fun id hin b hb => ?_
    exact (checkCapacity_allPinned hcheck).2.2.1 b (SetOrder.mem_candidates.mpr ⟨id, hin, hb⟩)
  | noVictim hcheck =>
    obtain ⟨hover, hnone⟩ := checkCapacity_noVictim hcheck
    have hempty := hbmUsed_eq_zero hs (hp.eq_nil_of_none hnone)
    omega
  | displace hcheck _ _ ih =>
    exact ih ((displaceVictim_frame sim currentStep hs (victim_mem_candidates hcheck)).consistent hs)

/-- The event does not clear the pin of a resident block while HBM is over its
capacity: such an access is a hit, and a hit does not run the loop. -/
def KeepsPinsOverCapacity (sim : KVMemorySimulator) (s : SimulatorState) (e : MemoryIntentEvent) : Prop :=
  e.eventType = .accessed → e.objectId ∈ s.hbmBlocks → sim.hbmCapacityBytes < s.hbmUsed →
    e.intent.pinRequested = true

instance : Decidable (KeepsPinsOverCapacity sim s e) := by
  unfold KeepsPinsOverCapacity
  infer_instance

theorem runEvent_overOnlyPinned (hp : sim.policy.IntentAware) (hcap : 0 ≤ sim.hbmCapacityBytes)
    (hs : s.Consistent) (hover : OverOnlyPinned sim s) (hfresh : FreshAllocation s e)
    (hkeeps : KeepsPinsOverCapacity sim s e) (h : sim.runEvent order s e = .ok s') :
    OverOnlyPinned sim s' := by
  obtain ⟨t, latency, hd, ht, hsettled⟩ := runEvent_ok hs victimsMeet_true h
  have hdispatched : OverOnlyPinned sim t := by
    cases hd.hbmEffect hs hfresh with
    | enforced hentry hrun hlive hhbm =>
      have hu := hrun.overOnlyPinned hp hcap hentry
      unfold OverOnlyPinned at hu ⊢
      rw [SimulatorState.hbmUsed_congr hlive hhbm, hlive, hhbm]
      exact hu
    | kept hkept =>
      have hle := hkept.hbmUsed_le (fun _ _ hk => hk.1) hs ht
      rcases le_or_gt s.hbmUsed sim.hbmCapacityBytes with hfits | hfull
      · exact .inl (hle.trans hfits)
      · -- over capacity every resident block was pinned, and the event cleared no pin
        refine .inr fun id hin b' hb' => ?_
        obtain ⟨b, hb, -, hpin⟩ := hkept.rel id hin b' hb'
        have hpinned := (hover.resolve_left (not_le.mpr hfull)) id (hkept.subset hin) b hb
        exact hpin (fun htype hresident => hkeeps htype hresident hfull) hpinned
  rcases hdispatched with hfits | hpinned
  · exact .inl (hsettled.hbmUsed_eq.trans_le hfits)
  · refine .inr fun id hin b' hb' => ?_
    rw [hsettled.hbmBlocks] at hin
    obtain ⟨b, hb, r, -, rfl⟩ := hsettled.aged.of_some hb'
    exact hpinned id hin b hb

/-- Under an intent-aware policy HBM is over its capacity only with pinned blocks,
in every run that allocates no live object and clears no pin of a resident block
while HBM is over capacity. -/
theorem over_capacity_only_pinned {events pre : List MemoryIntentEvent} (hp : sim.policy.IntentAware)
    (hcap : 0 ≤ sim.hbmCapacityBytes)
    (hfresh : Replay.Meets (sim.runEvent order) FreshAllocation SimulatorState.initial events)
    (hkeeps : Replay.Meets (sim.runEvent order) (KeepsPinsOverCapacity sim) SimulatorState.initial events)
    (hpre : pre <+: events) (h : sim.replay order SimulatorState.initial pre = .ok s) :
    OverOnlyPinned sim s := by
  have hinitial : OverOnlyPinned sim SimulatorState.initial := .inl hcap
  refine replay_invariant hinitial ?_ (hfresh.and hkeeps) hpre h
  intro s e s' hs hover hmeets hstep
  exact runEvent_overOnlyPinned hp hcap hs hover hmeets.1 hmeets.2 hstep

def pinnedIntent (objectId : String) : MemoryIntent :=
  { sampleIntent objectId {.hbm, .dram} .hbm with pinRequested := true }

/-- Three pinned blocks overfill HBM. The access to one of them keeps its pin. -/
def pinnedTrace : List MemoryIntentEvent :=
  [sampleEvent 0 .allocated (pinnedIntent "a"),
    sampleEvent 1 .allocated (pinnedIntent "b"),
    sampleEvent 2 .allocated (pinnedIntent "c"),
    sampleEvent 3 .accessed (pinnedIntent "a")]

theorem over_capacity_only_pinned_pressure :
    ∃ s, (pressured IntentAwarePolicy).replay SetOrder.fastestFirst SimulatorState.initial pinnedTrace =
        .ok s ∧ OverOnlyPinned (pressured IntentAwarePolicy) s ∧ s.hbmUsed = 30 := by
  obtain ⟨s, h, hcheck⟩ := Replay.exists_of_check
    (x := (pressured IntentAwarePolicy).replay SetOrder.fastestFirst SimulatorState.initial pinnedTrace)
    (p := fun s => decide (s.hbmUsed = 30)) (by decide +kernel)
  exact ⟨s, h, over_capacity_only_pinned PlacementPolicy.intentAware_intent (by decide)
    (by decide +kernel) (by decide +kernel) (List.prefix_refl _) h, of_decide_eq_true hcheck⟩

/-- The last access of `pinnedTrace` with the pin cleared. -/
def unpinningTrace : List MemoryIntentEvent :=
  [sampleEvent 0 .allocated (pinnedIntent "a"),
    sampleEvent 1 .allocated (pinnedIntent "b"),
    sampleEvent 2 .allocated (pinnedIntent "c"),
    sampleEvent 3 .accessed (sampleIntent "a" {.hbm, .dram} .hbm)]

/-- A hit that clears a pin leaves HBM over capacity with an evictable block. -/
theorem over_capacity_with_unpinned :
    Replay.Meets ((pressured IntentAwarePolicy).runEvent SetOrder.fastestFirst) FreshAllocation
      SimulatorState.initial unpinningTrace ∧
    ∃ s, (pressured IntentAwarePolicy).replay SetOrder.fastestFirst SimulatorState.initial
      unpinningTrace = .ok s ∧ ¬OverOnlyPinned (pressured IntentAwarePolicy) s := by
  refine ⟨by decide +kernel, ?_⟩
  obtain ⟨s, h, hcheck⟩ := Replay.exists_of_check
    (x := (pressured IntentAwarePolicy).replay SetOrder.fastestFirst SimulatorState.initial unpinningTrace)
    (p := fun s => decide (s.hbmUsed = 30) && decide ("a" ∈ s.hbmBlocks) &&
      (s.liveBlocks.get? "a").any (fun b => !b.pinRequested)) (by decide +kernel)
  simp only [Bool.and_eq_true, decide_eq_true_eq, Option.any_eq_true, Bool.not_eq_true'] at hcheck
  obtain ⟨⟨hused, hin⟩, b, hb, hpin⟩ := hcheck
  refine ⟨s, h, ?_⟩
  rintro (hfits | hpinned)
  · rw [hused] at hfits
    exact absurd hfits (by decide)
  · rw [hpinned "a" hin b hb] at hpin
    cases hpin

end KVMemorySimulator

end KVMemoryIntent
