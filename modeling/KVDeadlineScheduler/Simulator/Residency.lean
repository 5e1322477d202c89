-- SUMMARY: Where a block is: when the residency sets stay disjoint, and when tier labels agree with them.
import KVDeadlineScheduler.Simulator.HbmBound

/-!
# Residency

A block counts against HBM and DRAM through two sets of ids, and carries a tier
label of its own. The capacity loop, misses, prefetches and spills keep the sets
apart. An allocation of a live object does not, and several events move a block
without its label or label it without moving it.
-/

namespace KVMemoryIntent

namespace KVMemorySimulator

variable {sim : KVMemorySimulator} {order : SetOrder} {s s' t : SimulatorState}
  {e : MemoryIntentEvent} {latency : ℤ} {C : SimulatorState → MemoryIntent → Prop}

/-! ## Disjoint residency sets -/

/-- No id is in both sets. -/
def Apart (s : SimulatorState) : Prop := Disjoint s.hbmBlocks s.dramBlocks

/-- An allocation into one tier does not name an object that is in the other. -/
def AllocatesApart (s : SimulatorState) (e : MemoryIntentEvent) : Prop :=
  e.eventType = .allocated →
    (e.intent.currentTier = .dram → e.objectId ∉ s.hbmBlocks) ∧
      (e.intent.currentTier = .hbm → e.objectId ∉ s.dramBlocks)

instance : Decidable (AllocatesApart s e) := by
  unfold AllocatesApart
  infer_instance

theorem disjoint_insert_erase {a b : Finset String} (h : Disjoint a b) (id : String) :
    Disjoint (insert id a) (b.erase id) := by
  rw [Finset.disjoint_insert_left]
  exact ⟨Finset.notMem_erase _ _, h.mono_right (Finset.erase_subset _ _)⟩

theorem CapacityRun.apart {currentStep : ℤ} (h : CapacityRun sim order currentStep C s latency s')
    (hs : Apart s) : Apart s' := by
  induction h with
  | fits => exact hs
  | allPinned => exact hs
  | noVictim => exact hs
  | displace _ _ _ ih =>
    apply ih
    unfold Apart
    rw [displaceVictim_hbmBlocks, displaceVictim_dramBlocks]
    split
    · exact (disjoint_insert_erase hs.symm _).symm
    · exact hs.mono (Finset.erase_subset _ _) (Finset.erase_subset _ _)

theorem Dispatched.apart (h : Dispatched sim order C s e t latency) (hapart : Apart s)
    (hallocates : AllocatesApart s e) : Apart t := by
  cases h with
  | allocatedHbm htype htier hrun =>
    have hentry : Apart (allocatedInHbm s e) :=
      Finset.disjoint_insert_left.mpr ⟨(hallocates htype).2 htier, hapart⟩
    exact hrun.apart hentry
  | allocatedDram htype htier =>
    exact Finset.disjoint_insert_right.mpr ⟨(hallocates htype).1 htier, hapart⟩
  | miss _ _ _ hrun =>
    have hentry : Apart (missedInHbm s e) := disjoint_insert_erase hapart _
    exact hrun.apart hentry
  | spilled => exact (disjoint_insert_erase hapart.symm _).symm
  | prefetched _ hrun =>
    have hentry : Apart (prefetchedInHbm s e) := disjoint_insert_erase hapart _
    exact hrun.apart hentry
  | evicted => exact hapart.mono (Finset.erase_subset _ _) (Finset.erase_subset _ _)
  | freed => exact hapart.mono (Finset.erase_subset _ _) (Finset.erase_subset _ _)
  | _ => exact hapart

theorem runEvent_apart (hs : s.Consistent) (hapart : Apart s) (hallocates : AllocatesApart s e)
    (h : sim.runEvent order s e = .ok s') : Apart s' := by
  obtain ⟨t, latency, hd, -, hsettled⟩ := runEvent_ok hs victimsMeet_true h
  unfold Apart
  rw [hsettled.hbmBlocks, hsettled.dramBlocks]
  exact hd.apart hapart hallocates

/-- In every run whose allocations stay apart no block is counted in both tiers. -/
theorem residency_apart {events pre : List MemoryIntentEvent}
    (hallocates : Replay.Meets (sim.runEvent order) AllocatesApart SimulatorState.initial events)
    (hpre : pre <+: events) (h : sim.replay order SimulatorState.initial pre = .ok s) :
    Disjoint s.hbmBlocks s.dramBlocks ∧
      s.hbmUsed + s.dramUsed = s.usedBytes (s.hbmBlocks ∪ s.dramBlocks) := by
  have hinitial : Apart SimulatorState.initial := Finset.disjoint_empty_left _
  have hapart : Apart s := by
    refine replay_invariant hinitial ?_ hallocates hpre h
    intro s e s' hs hapart hallocates hstep
    exact runEvent_apart hs hapart hallocates hstep
  exact ⟨hapart, (Finset.sum_union hapart).symm⟩

theorem residency_apart_pressure :
    ∃ s, (pressured LRUPolicy).replay SetOrder.fastestFirst SimulatorState.initial pressureTrace = .ok s ∧
      (Disjoint s.hbmBlocks s.dramBlocks ∧
        s.hbmUsed + s.dramUsed = s.usedBytes (s.hbmBlocks ∪ s.dramBlocks)) ∧ s.dramUsed = 10 := by
  obtain ⟨s, h, hcheck⟩ := Replay.exists_of_check
    (x := (pressured LRUPolicy).replay SetOrder.fastestFirst SimulatorState.initial pressureTrace)
    (p := fun s => decide (s.dramUsed = 10)) (by decide +kernel)
  exact ⟨s, h, residency_apart (by decide +kernel) (List.prefix_refl _) h, of_decide_eq_true hcheck⟩

/-- A block allocated in HBM is allocated again in DRAM. -/
def reallocatedTrace : List MemoryIntentEvent :=
  [sampleEvent 0 .allocated (sampleIntent "a" {.hbm, .dram} .hbm),
    sampleEvent 1 .allocated (sampleIntent "a" {.hbm, .dram} .dram)]

/-- The block is then counted in both tiers. -/
theorem reallocated_counted_twice :
    ∃ s, (pressured LRUPolicy).replay SetOrder.fastestFirst SimulatorState.initial reallocatedTrace =
        .ok s ∧ ¬Disjoint s.hbmBlocks s.dramBlocks ∧ s.hbmUsed = 10 ∧ s.dramUsed = 10 := by
  obtain ⟨s, h, hcheck⟩ := Replay.exists_of_check
    (x := (pressured LRUPolicy).replay SetOrder.fastestFirst SimulatorState.initial reallocatedTrace)
    (p := fun s => decide (¬Disjoint s.hbmBlocks s.dramBlocks ∧ s.hbmUsed = 10 ∧ s.dramUsed = 10))
    (by decide +kernel)
  exact ⟨s, h, of_decide_eq_true hcheck⟩

/-! ## Tier labels -/

/-- A label of HBM or DRAM says that the id is in that set, and the other way round. -/
def LabelAgrees (s : SimulatorState) (id : String) (tier : Tier) : Prop :=
  (tier = .hbm ↔ id ∈ s.hbmBlocks) ∧ (tier = .dram ↔ id ∈ s.dramBlocks)

theorem labelAgrees_hbm {id : String} (hhbm : id ∈ s.hbmBlocks) (hdram : id ∉ s.dramBlocks) :
    LabelAgrees s id .hbm := by
  simp [LabelAgrees, hhbm, hdram]

theorem labelAgrees_dram {id : String} (hhbm : id ∉ s.hbmBlocks) (hdram : id ∈ s.dramBlocks) :
    LabelAgrees s id .dram := by
  simp [LabelAgrees, hhbm, hdram]

theorem labelAgrees_other {id : String} {tier : Tier} (hhbm : tier ≠ .hbm ∧ id ∉ s.hbmBlocks)
    (hdram : tier ≠ .dram ∧ id ∉ s.dramBlocks) : LabelAgrees s id tier := by
  simp [LabelAgrees, hhbm, hdram]

/-- The label of every live block agrees with the sets. -/
def Labelled (s : SimulatorState) : Prop :=
  ∀ id b, s.liveBlocks.get? id = some b → LabelAgrees s id b.currentTier

/-- One block is stored under a label that agrees, and no other id moves. -/
theorem Labelled.of_set {id : String} {block : MemoryIntent} (hs : Labelled s)
    (hlive : t.liveBlocks = s.liveBlocks.set id block) (hblock : LabelAgrees t id block.currentTier)
    (hothers : ∀ id' ≠ id, (id' ∈ t.hbmBlocks ↔ id' ∈ s.hbmBlocks) ∧
      (id' ∈ t.dramBlocks ↔ id' ∈ s.dramBlocks)) : Labelled t := by
  intro id' b hb
  rw [hlive, OrderedDict.get?_set] at hb
  split at hb
  · rename_i heq
    cases hb
    rw [heq]
    exact hblock
  · rename_i hne
    obtain ⟨hhbm, hdram⟩ := hothers id' hne
    unfold LabelAgrees
    rw [hhbm, hdram]
    exact hs id' b hb

/-- A victim whose first fallback is DRAM finds room there. -/
def FallsBackToRoom (sim : KVMemorySimulator) (order : SetOrder) (s : SimulatorState)
    (victim : MemoryIntent) : Prop :=
  targetTier order s victim = some .dram → s.dramUsed + victim.sizeBytes ≤ sim.dramCapacityBytes

instance {victim : MemoryIntent} : Decidable (FallsBackToRoom sim order s victim) := by
  unfold FallsBackToRoom
  infer_instance

/-- The event does not part a label from where the block is: it does not evict a
labelled block, mark an unknown object labelled HBM or DRAM, relabel a block it
declines to prefetch, or displace a block that DRAM has no room for. -/
structure KeepsLabels (sim : KVMemorySimulator) (order : SetOrder) (s : SimulatorState)
    (e : MemoryIntentEvent) : Prop where
  evicted : e.eventType = .evicted → ∀ b ∈ s.liveBlocks.get? e.objectId,
    b.currentTier ≠ .hbm ∧ b.currentTier ≠ .dram
  marked : e.eventType = .markedDecodeCritical → s.liveBlocks.get? e.objectId = none →
    e.intent.currentTier ≠ .hbm ∧ e.intent.currentTier ≠ .dram
  declined : e.eventType = .prefetched → s.liveBlocks.get? e.objectId ≠ none →
    e.objectId ∉ s.hbmBlocks → sim.policy.shouldPrefetch e.intent e.step = false →
    e.intent.currentTier ≠ .hbm ∧ (e.intent.currentTier = .dram ↔ e.objectId ∈ s.dramBlocks)
  displaced : VictimsMeet sim order (FallsBackToRoom sim order) s e

instance : Decidable (KeepsLabels sim order s e) :=
  decidable_of_iff
    ((e.eventType = .evicted → ∀ b ∈ s.liveBlocks.get? e.objectId,
        b.currentTier ≠ .hbm ∧ b.currentTier ≠ .dram) ∧
      (e.eventType = .markedDecodeCritical → s.liveBlocks.get? e.objectId = none →
        e.intent.currentTier ≠ .hbm ∧ e.intent.currentTier ≠ .dram) ∧
      (e.eventType = .prefetched → s.liveBlocks.get? e.objectId ≠ none →
        e.objectId ∉ s.hbmBlocks → sim.policy.shouldPrefetch e.intent e.step = false →
        e.intent.currentTier ≠ .hbm ∧ (e.intent.currentTier = .dram ↔ e.objectId ∈ s.dramBlocks)) ∧
      VictimsMeet sim order (FallsBackToRoom sim order) s e)
    ⟨fun ⟨h₁, h₂, h₃, h₄⟩ => ⟨h₁, h₂, h₃, h₄⟩,
      fun ⟨h₁, h₂, h₃, h₄⟩ => ⟨h₁, h₂, h₃, h₄⟩⟩

theorem displacedTier_ne_hbm {victim : MemoryIntent} : displacedTier order s victim ≠ .hbm := by
  unfold displacedTier targetTier
  cases htarget : ((order.allowedTiers s victim).filter (· ≠ .hbm)).head? with
  | none => decide
  | some tier => simpa using (List.mem_filter.mp (List.mem_of_mem_head? htarget)).2

/-- A displacement within the room of DRAM labels the victim with where it goes. -/
theorem displaceVictim_labelled {victim : MemoryIntent} {currentStep : ℤ} (hlabelled : Labelled s)
    (hroom : FallsBackToRoom sim order s victim) :
    Labelled (sim.displaceVictim order s victim currentStep).1 := by
  apply hlabelled.of_set displaceVictim_liveBlocks
  · unfold LabelAgrees
    rw [displaceVictim_hbmBlocks, displaceVictim_dramBlocks]
    refine ⟨by simp [displacedTier_ne_hbm], ?_⟩
    split
    · rename_i hspills
      simp [displacedTier, hspills.1]
    · -- with room in DRAM a victim that does not spill has another target
      rename_i hspills
      have htarget : targetTier order s victim ≠ some .dram := fun ht => hspills ⟨ht, hroom ht⟩
      have htier : displacedTier order s victim ≠ .dram := by
        unfold displacedTier
        cases h : targetTier order s victim with
        | none => decide
        | some tier => exact fun heq => htarget (h.trans (congrArg some heq))
      simp [htier]
  · intro id' hne
    rw [displaceVictim_hbmBlocks, displaceVictim_dramBlocks]
    refine ⟨by simp [hne], ?_⟩
    split <;> simp [hne]

theorem CapacityRun.labelled {currentStep : ℤ}
    (h : CapacityRun sim order currentStep (FallsBackToRoom sim order) s latency s')
    (hs : Labelled s) : Labelled s' := by
  induction h with
  | fits => exact hs
  | allPinned => exact hs
  | noVictim => exact hs
  | displace _ hroom _ ih => exact ih (displaceVictim_labelled hs hroom)

/-- A block that is stored with its label and put into HBM alone. -/
theorem Labelled.placed {block : MemoryIntent} (hlabelled : Labelled s) (h : Stored s e block t)
    (htier : block.currentTier = .hbm) (hhbm : t.hbmBlocks = insert e.objectId s.hbmBlocks)
    (hdram : t.dramBlocks = s.dramBlocks.erase e.objectId) : Labelled t := by
  apply hlabelled.of_set h.liveBlocks
  · rw [htier]
    apply labelAgrees_hbm
    · rw [hhbm]
      exact Finset.mem_insert_self _ _
    · rw [hdram]
      exact Finset.notMem_erase _ _
  · intro id' hne
    rw [hhbm, hdram]
    exact ⟨Finset.mem_insert.trans (or_iff_right hne), Finset.mem_erase.trans (and_iff_right hne)⟩

/-- The id leaves both sets and the label stays, so it must have been neither. -/
theorem Labelled.evicted {existing : MemoryIntent} (hlabelled : Labelled s) (hs : s.Consistent)
    (hget : s.liveBlocks.get? e.objectId = some existing) (hnotHbm : existing.currentTier ≠ .hbm)
    (hnotDram : existing.currentTier ≠ .dram) : Labelled (storeEvicted s existing) := by
  intro id b hb
  obtain ⟨hhbm, hdram⟩ := hlabelled id b hb
  have hid := hs.objectId_eq _ _ hget
  rcases eq_or_ne id e.objectId with heq | hne
  · obtain rfl : existing = b := Option.some.inj ((heq ▸ hget).symm.trans hb)
    exact labelAgrees_other ⟨hnotHbm, by simp [storeEvicted, hid, heq]⟩
      ⟨hnotDram, by simp [storeEvicted, hid, heq]⟩
  · unfold LabelAgrees
    simp only [storeEvicted, hid, Finset.mem_erase, and_iff_right hne]
    exact ⟨hhbm, hdram⟩

theorem Dispatched.labelled (h : Dispatched sim order (FallsBackToRoom sim order) s e t latency)
    (hs : s.Consistent) (hlabelled : Labelled s) (hfresh : FreshAllocation s e)
    (hkeeps : KeepsLabels sim order s e) : Labelled t := by
  have hunknown : s.liveBlocks.get? e.objectId = none →
      e.objectId ∉ s.hbmBlocks ∧ e.objectId ∉ s.dramBlocks :=
    fun hget => ⟨hs.notMem_hbm hget, hs.notMem_dram hget⟩
  cases h with
  | allocatedHbm htype htier hrun =>
    obtain ⟨-, hdram⟩ := hunknown (hfresh htype)
    have herase : s.dramBlocks = s.dramBlocks.erase e.objectId := (Finset.erase_eq_of_notMem hdram).symm
    have hentry : Labelled (allocatedInHbm s e) := hlabelled.placed stored_allocatedInHbm htier rfl herase
    exact hrun.labelled hentry
  | allocatedDram htype htier =>
    obtain ⟨hhbm, -⟩ := hunknown (hfresh htype)
    apply hlabelled.of_set stored_allocatedInDram.liveBlocks
    · rw [htier]
      exact labelAgrees_dram hhbm (Finset.mem_insert_self _ _)
    · intro id' hne
      exact ⟨Iff.rfl, Finset.mem_insert.trans (or_iff_right hne)⟩
  | allocatedOther htype hnotHbm hnotDram =>
    obtain ⟨hhbm, hdram⟩ := hunknown (hfresh htype)
    refine hlabelled.of_set stored_storeAllocated.liveBlocks ?_ fun _ _ => ⟨Iff.rfl, Iff.rfl⟩
    exact labelAgrees_other ⟨hnotHbm, hhbm⟩ ⟨hnotDram, hdram⟩
  | hit htype hin =>
    obtain ⟨b, hb⟩ := hs.hbm_live _ hin
    refine hlabelled.of_set rfl ?_ fun _ _ => ⟨Iff.rfl, Iff.rfl⟩
    have htier : (accessedBlock s e).currentTier = b.currentTier := by
      simp only [accessedBlock, hb, Option.getD_some, touch]
    rw [htier]
    exact hlabelled _ b hb
  | miss _ _ _ hrun =>
    have hentry : Labelled (missedInHbm s e) := hlabelled.placed (stored_missedInHbm hs) rfl
      (missedInHbm_hbmBlocks hs) (missedInHbm_dramBlocks hs)
    exact hrun.labelled hentry
  | markedUnknown htype hget =>
    obtain ⟨hnotHbm, hnotDram⟩ := hkeeps.marked htype hget
    obtain ⟨hhbm, hdram⟩ := hunknown hget
    refine hlabelled.of_set rfl ?_ fun _ _ => ⟨Iff.rfl, Iff.rfl⟩
    exact labelAgrees_other ⟨hnotHbm, hhbm⟩ ⟨hnotDram, hdram⟩
  | annotated _ hget =>
    refine hlabelled.of_set rfl ?_ fun _ _ => ⟨Iff.rfl, Iff.rfl⟩
    rw [annotate_currentTier]
    exact hlabelled _ _ hget
  | spilled _ hget =>
    have hid := hs.objectId_eq _ _ hget
    apply hlabelled.of_set (stored_spilled hs hget).liveBlocks
    · apply labelAgrees_dram
      · simp [storeSpilled, hid]
      · simp [storeSpilled, hid]
    · intro id' hne
      simp [storeSpilled, hid, hne]
  | prefetchDeclined htype hget hout hdeclined =>
    have hlive : s.liveBlocks.get? e.objectId ≠ none := by simp [hget]
    obtain ⟨hnotHbm, hdram⟩ := hkeeps.declined htype hlive hout hdeclined
    refine hlabelled.of_set rfl ⟨?_, hdram⟩ fun _ _ => ⟨Iff.rfl, Iff.rfl⟩
    exact ⟨fun h => absurd h hnotHbm, fun hin => absurd hin hout⟩
  | prefetched _ hrun =>
    have hentry : Labelled (prefetchedInHbm s e) := hlabelled.placed stored_prefetchedInHbm rfl rfl rfl
    exact hrun.labelled hentry
  | evicted htype hget =>
    obtain ⟨hnotHbm, hnotDram⟩ := hkeeps.evicted htype _ hget
    exact hlabelled.evicted hs hget hnotHbm hnotDram
  | freed =>
    intro id b hb
    obtain ⟨hne, hb⟩ := get?_of_runFreed hb
    obtain ⟨hhbm, hdram⟩ := hlabelled id b hb
    exact ⟨hhbm.trans (Finset.mem_erase.trans (and_iff_right hne)).symm,
      hdram.trans (Finset.mem_erase.trans (and_iff_right hne)).symm⟩
  | unchanged => exact hlabelled

theorem runEvent_labelled (hs : s.Consistent) (hlabelled : Labelled s) (hfresh : FreshAllocation s e)
    (hkeeps : KeepsLabels sim order s e) (h : sim.runEvent order s e = .ok s') : Labelled s' := by
  obtain ⟨t, latency, hd, -, hsettled⟩ := runEvent_ok hs hkeeps.displaced h
  intro id b' hb'
  obtain ⟨b, hb, r, -, rfl⟩ := hsettled.aged.of_some hb'
  unfold LabelAgrees
  rw [hsettled.hbmBlocks, hsettled.dramBlocks]
  exact hd.labelled hs hlabelled hfresh hkeeps id b hb

/-- In every run that allocates no live object and whose events keep labels and
places together, every live block is labelled with where it is. -/
theorem labels_agree {events pre : List MemoryIntentEvent}
    (hfresh : Replay.Meets (sim.runEvent order) FreshAllocation SimulatorState.initial events)
    (hkeeps : Replay.Meets (sim.runEvent order) (KeepsLabels sim order) SimulatorState.initial events)
    (hpre : pre <+: events) (h : sim.replay order SimulatorState.initial pre = .ok s) :
    ∀ id b, s.liveBlocks.get? id = some b →
      (b.currentTier = .hbm ↔ id ∈ s.hbmBlocks) ∧ (b.currentTier = .dram ↔ id ∈ s.dramBlocks) := by
  have hinitial : Labelled SimulatorState.initial := by simp [Labelled, SimulatorState.initial]
  have hlabelled : Labelled s := by
    refine replay_invariant hinitial ?_ (hfresh.and hkeeps) hpre h
    intro s e s' hs hlabelled hmeets hstep
    exact runEvent_labelled hs hlabelled hmeets.1 hmeets.2 hstep
  exact hlabelled

theorem labels_agree_pressure :
    ∃ s, (pressured LRUPolicy).replay SetOrder.fastestFirst SimulatorState.initial pressureTrace = .ok s ∧
      (∀ id b, s.liveBlocks.get? id = some b →
        (b.currentTier = .hbm ↔ id ∈ s.hbmBlocks) ∧ (b.currentTier = .dram ↔ id ∈ s.dramBlocks)) ∧
      s.dramBlocks.card = 1 := by
  obtain ⟨s, h, hcheck⟩ := Replay.exists_of_check
    (x := (pressured LRUPolicy).replay SetOrder.fastestFirst SimulatorState.initial pressureTrace)
    (p := fun s => decide (s.dramBlocks.card = 1)) (by decide +kernel)
  exact ⟨s, h, labels_agree (by decide +kernel) (by decide +kernel) (List.prefix_refl _) h,
    of_decide_eq_true hcheck⟩

/-- A block is allocated in HBM and evicted by an explicit event. -/
def evictedTrace : List MemoryIntentEvent :=
  [sampleEvent 0 .allocated (sampleIntent "a" {.hbm, .dram} .hbm),
    sampleEvent 1 .evicted (sampleIntent "a" {.hbm, .dram} .hbm)]

/-- The evicted block keeps its HBM label. -/
theorem evicted_still_labelled :
    Replay.Meets ((pressured LRUPolicy).runEvent SetOrder.fastestFirst) FreshAllocation
      SimulatorState.initial evictedTrace ∧
    ∃ s b, (pressured LRUPolicy).replay SetOrder.fastestFirst SimulatorState.initial evictedTrace =
        .ok s ∧ s.liveBlocks.get? "a" = some b ∧ ¬(b.currentTier = .hbm ↔ "a" ∈ s.hbmBlocks) := by
  refine ⟨by decide +kernel, ?_⟩
  obtain ⟨s, h, hcheck⟩ := Replay.exists_of_check
    (x := (pressured LRUPolicy).replay SetOrder.fastestFirst SimulatorState.initial evictedTrace)
    (p := fun s => (s.liveBlocks.get? "a").any fun b => ¬(b.currentTier = .hbm ↔ "a" ∈ s.hbmBlocks))
    (by decide +kernel)
  obtain ⟨b, hb, hlabel⟩ := Option.any_eq_true _ _ |>.mp hcheck
  exact ⟨s, b, h, hb, of_decide_eq_true hlabel⟩

end KVMemorySimulator

end KVMemoryIntent
