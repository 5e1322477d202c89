-- SUMMARY: Validity of the live blocks: when no event leaves a block in a tier it does not allow, and runs never fail.
import KVDeadlineScheduler.Simulator.Floats

/-!
# Validation

The tier of a block is rewritten past the checks of the constructor, which run
again on the next copy of the block. `KeepsTiersAllowed` asks that no event moves
a block into a tier outside its allowed tiers. Then every live block stays valid
and every copy succeeds.
-/

namespace KVMemoryIntent

namespace MemoryIntent

/-- What a block is and where it may be, as the constructor checks it. -/
structure SamePlacement (m base : MemoryIntent) : Prop where
  objectId : m.objectId = base.objectId
  requestId : m.requestId = base.requestId
  blockId : m.blockId = base.blockId
  objectType : m.objectType = base.objectType
  sizeBytes : m.sizeBytes = base.sizeBytes
  allowedTiers : m.allowedTiers = base.allowedTiers
  currentTier : m.currentTier = base.currentTier

/-- The constructor accepts changes of a valid block that leave its placement
alone and its priority and recency in range. -/
theorem SamePlacement.postInit_ok {m base : MemoryIntent} (h : SamePlacement m base)
    (hbase : base.Valid) (hprio : 0 ≤ m.requestPriority ∧ m.requestPriority ≤ 100)
    (hrec : 0 ≤ m.recencyScore ∧ m.recencyScore ≤ 1) : ∃ m', m.postInit = .ok m' := by
  refine ⟨_, postInit_of_valid (m := m) ⟨⟨?_, ?_, ?_, ?_, ?_, hprio, hrec, ?_⟩, ?_⟩⟩
  · exact h.objectId ▸ hbase.objectId_ne
  · intro htype
    exact h.requestId ▸ hbase.requestId_ne (h.objectType ▸ htype)
  · exact h.blockId ▸ hbase.blockId_nonneg
  · exact h.sizeBytes ▸ hbase.sizeBytes_pos
  · exact h.allowedTiers ▸ hbase.allowedTiers_ne
  · intro hp
    simp only at hp
    simp [hp]
  · exact h.allowedTiers ▸ h.currentTier ▸ hbase.currentTier_mem

/-- A valid block moved into a tier it allows is valid. -/
theorem Valid.retier {m : MemoryIntent} (h : m.Valid) {tier : Tier} (htier : tier ∈ m.allowedTiers) :
    Valid { m with currentTier := tier } :=
  ⟨⟨h.1.1, h.1.2, h.1.3, h.1.4, h.1.5, h.1.6, h.1.7, h.1.8⟩, htier⟩

end MemoryIntent

namespace KVMemorySimulator

variable {sim : KVMemorySimulator} {order : SetOrder} {s s' t : SimulatorState}
  {e : MemoryIntentEvent} {latency : ℤ} {C : SimulatorState → MemoryIntent → Prop}

/-! ## Valid live blocks -/

/-- Every live block passes the checks of the constructor. -/
def AllValid (s : SimulatorState) : Prop := ∀ id b, s.liveBlocks.get? id = some b → b.Valid

/-- The victim may live outside HBM. -/
def HasFallback (_s : SimulatorState) (victim : MemoryIntent) : Prop :=
  ∃ tier ∈ victim.allowedTiers, tier ≠ .hbm

instance {victim : MemoryIntent} : Decidable (HasFallback s victim) := by
  unfold HasFallback
  infer_instance

/-- The event moves no block into a tier it does not allow: a missed and a
prefetched block allow HBM, and every displaced block allows some other tier. -/
structure KeepsTiersAllowed (sim : KVMemorySimulator) (order : SetOrder) (s : SimulatorState)
    (e : MemoryIntentEvent) : Prop where
  missed : e.eventType = .accessed → e.objectId ∉ s.hbmBlocks →
    .hbm ∈ ((s.liveBlocks.get? e.objectId).getD e.intent).allowedTiers
  prefetched : Prefetches sim s e → .hbm ∈ e.intent.allowedTiers
  displaced : VictimsMeet sim order HasFallback s e

instance : Decidable (KeepsTiersAllowed sim order s e) :=
  decidable_of_iff
    ((e.eventType = .accessed → e.objectId ∉ s.hbmBlocks →
        .hbm ∈ ((s.liveBlocks.get? e.objectId).getD e.intent).allowedTiers) ∧
      (Prefetches sim s e → .hbm ∈ e.intent.allowedTiers) ∧ VictimsMeet sim order HasFallback s e)
    ⟨fun ⟨h₁, h₂, h₃⟩ => ⟨h₁, h₂, h₃⟩, fun ⟨h₁, h₂, h₃⟩ => ⟨h₁, h₂, h₃⟩⟩

/-- A valid block is stored over valid blocks. -/
theorem AllValid.of_set {id : String} {block : MemoryIntent} (hs : AllValid s)
    (hlive : t.liveBlocks = s.liveBlocks.set id block) (hblock : block.Valid) : AllValid t := by
  intro id' b hb
  rw [hlive, OrderedDict.get?_set] at hb
  split at hb
  · cases hb
    exact hblock
  · exact hs id' b hb

theorem displacedTier_mem {victim : MemoryIntent} (h : HasFallback s victim) :
    displacedTier order s victim ∈ victim.allowedTiers := by
  obtain ⟨tier, htier, hne⟩ := h
  have hmem : tier ∈ (order.allowedTiers s victim).filter (· ≠ .hbm) := by
    rw [List.mem_filter]
    exact ⟨(order.mem_allowedTiers s victim tier).mpr htier, by simpa using hne⟩
  unfold displacedTier targetTier
  cases htarget : ((order.allowedTiers s victim).filter (· ≠ .hbm)).head? with
  | none =>
    rw [List.head?_eq_none_iff.mp htarget] at hmem
    cases hmem
  | some first =>
    have hfirst := List.mem_of_mem_filter (List.mem_of_mem_head? htarget)
    exact (order.mem_allowedTiers s victim first).mp hfirst

theorem CapacityRun.allValid {currentStep : ℤ}
    (h : CapacityRun sim order currentStep HasFallback s latency s') (hs : s.Consistent)
    (hvalid : AllValid s) : AllValid s' := by
  induction h with
  | fits => exact hvalid
  | allPinned => exact hvalid
  | noVictim => exact hvalid
  | displace hcheck hfallback _ ih =>
    have hmem := victim_mem_candidates hcheck
    have hvictim := hvalid _ _ (SetOrder.get?_of_mem_candidates hs hmem).2
    apply ih ((displaceVictim_frame sim currentStep hs hmem).consistent hs)
    exact hvalid.of_set displaceVictim_liveBlocks (hvictim.retier (displacedTier_mem hfallback))

theorem Dispatched.allValid (h : Dispatched sim order HasFallback s e t latency) (hs : s.Consistent)
    (hvalid : AllValid s) (hkeeps : KeepsTiersAllowed sim order s e) : AllValid t := by
  cases h with
  | allocatedHbm _ _ hrun =>
    have hentry : AllValid (allocatedInHbm s e) :=
      hvalid.of_set stored_allocatedInHbm.liveBlocks e.intent_valid
    exact hrun.allValid (stored_allocatedInHbm.consistent hs) hentry
  | allocatedDram => exact hvalid.of_set stored_allocatedInDram.liveBlocks e.intent_valid
  | allocatedOther => exact hvalid.of_set stored_storeAllocated.liveBlocks e.intent_valid
  | hit _ _ hblock => exact hvalid.of_set rfl hblock
  | miss htype hout hblock hrun =>
    have hstored := stored_missedInHbm (s := s) (e := e) hs
    have hentry := hvalid.of_set hstored.liveBlocks (hblock.retier (hkeeps.missed htype hout))
    exact hrun.allValid (hstored.consistent hs) hentry
  | markedUnknown =>
    have hblock : (markedUnknownBlock e).Valid :=
      ⟨markedUnknownBlock_sound e, e.intent_valid.currentTier_mem⟩
    exact hvalid.of_set rfl hblock
  | annotated _ _ hblock => exact hvalid.of_set rfl hblock
  | spilled _ hget hallowed =>
    exact hvalid.of_set (stored_spilled hs hget).liveBlocks ((hvalid _ _ hget).retier hallowed)
  | prefetchDeclined => exact hvalid.of_set rfl e.intent_valid
  | prefetched haccepted hrun =>
    have hstored := stored_prefetchedInHbm (s := s) (e := e)
    have hentry := hvalid.of_set hstored.liveBlocks (e.intent_valid.retier (hkeeps.prefetched haccepted))
    exact hrun.allValid (hstored.consistent hs) hentry
  | evicted => exact hvalid
  | freed => exact fun id b hb => hvalid id b (get?_of_runFreed hb).2
  | unchanged => exact hvalid

/-! ## Progress -/

/-- The fields the placement of a block consists of. -/
def placementFields : List IntentField :=
  [.requestId, .blockId, .objectType, .sizeBytes, .allowedTiers, .currentTier]

theorem samePlacement_overwrite {existing incoming : MemoryIntent} {fields : List IntentField}
    (h : ∀ field ∈ placementFields, field ∉ fields) :
    (overwrite existing incoming fields).SamePlacement existing where
  objectId := rfl
  requestId := if_neg (h .requestId (by decide))
  blockId := if_neg (h .blockId (by decide))
  objectType := if_neg (h .objectType (by decide))
  sizeBytes := if_neg (h .sizeBytes (by decide))
  allowedTiers := if_neg (h .allowedTiers (by decide))
  currentTier := if_neg (h .currentTier (by decide))

theorem mergeIntent_total {existing incoming : MemoryIntent} {fields : List IntentField}
    (hexisting : existing.Valid) (hincoming : incoming.Valid)
    (h : ∀ field ∈ placementFields, field ∉ fields) :
    ∃ m, mergeIntent existing incoming fields = .ok m := by
  apply (samePlacement_overwrite h).postInit_ok hexisting
  · unfold overwrite
    dsimp only
    split
    · exact hincoming.requestPriority_range
    · exact hexisting.requestPriority_range
  · unfold overwrite
    dsimp only
    split
    · exact hincoming.recencyScore_range
    · exact hexisting.recencyScore_range

/-- An event type merges all fields, or none of the placement. -/
theorem mergeFields_cases (eventType : EventType) :
    mergeFields eventType = IntentField.all ∨
      ∀ field ∈ placementFields, field ∉ mergeFields eventType := by
  cases eventType <;> first | exact .inl rfl | exact .inr (by decide)

theorem mergeIncoming_total (hs : s.Consistent) (hvalid : AllValid s) (e : MemoryIntentEvent) :
    ∃ intent, mergeIncoming e e.intent (s.liveBlocks.get? e.objectId) = .ok intent := by
  rcases mergeFields_cases e.eventType with hall | hplacement
  · exact ⟨_, mergeIncoming_all hs hall⟩
  · cases hget : s.liveBlocks.get? e.objectId with
    | none => exact ⟨_, rfl⟩
    | some existing => exact mergeIntent_total (hvalid _ _ hget) e.intent_valid hplacement

theorem moveToHbm_total {block : MemoryIntent} {currentStep : ℤ} (hs : (placeInHbm s block).Consistent) :
    ∃ s' latency, sim.moveToHbm order s block currentStep = .ok (s', latency) := by
  obtain ⟨t, latency, h⟩ := ensureHbmCapacity_total sim order currentStep hs
  exact ⟨t.recordUsage, latency, Replay.bind_eq_ok.mpr ⟨_, h, rfl⟩⟩

theorem runAllocated_total (hs : s.Consistent) (e : MemoryIntentEvent) :
    ∃ t latency, sim.runAllocated order s e.step e.intent = .ok (t, latency) := by
  unfold runAllocated
  dsimp only
  split
  · obtain ⟨t, latency, h⟩ := ensureHbmCapacity_total sim order e.step
      ((stored_allocatedInHbm (s := s) (e := e)).consistent hs)
    exact ⟨t.recordUsage, latency, Replay.bind_eq_ok.mpr ⟨_, h, rfl⟩⟩
  · exact ⟨_, _, rfl⟩
  · exact ⟨_, _, rfl⟩
  · exact ⟨_, _, rfl⟩

theorem accessedBlock_postInit (hvalid : AllValid s) (e : MemoryIntentEvent) :
    (accessedBlock s e).postInit = .ok (accessedBlock s e) ∧ (accessedBlock s e).Valid := by
  have hstored : ((s.liveBlocks.get? e.objectId).getD e.intent).Valid := by
    cases hget : s.liveBlocks.get? e.objectId with
    | none => exact e.intent_valid
    | some existing => exact hvalid _ _ hget
  have hsame : (accessedBlock s e).SamePlacement ((s.liveBlocks.get? e.objectId).getD e.intent) :=
    ⟨rfl, rfl, rfl, rfl, rfl, rfl, rfl⟩
  obtain ⟨block, hblock⟩ := hsame.postInit_ok hstored hstored.requestPriority_range
    ⟨le_max_of_le_right zero_le_one, max_le e.intent_valid.recencyScore_range.2 le_rfl⟩
  obtain ⟨rfl, hblockValid⟩ := MemoryIntent.postInit_eq hblock e.intent_valid.pinned
  exact ⟨hblock, hblockValid⟩

theorem runAccessed_total {intent : MemoryIntent} (hs : s.Consistent) (hvalid : AllValid s)
    (htype : e.eventType = .accessed)
    (hmerge : mergeIncoming e e.intent (s.liveBlocks.get? e.objectId) = .ok intent) :
    ∃ t latency, sim.runAccessed order s e.step intent = .ok (t, latency) := by
  have hid := mergeIncoming_objectId hs hmerge
  have hblock := (accessedBlock_postInit hvalid e).1
  have htouch : (touch ((s.liveBlocks.get? intent.objectId).getD intent) intent e.step).postInit =
      .ok (accessedBlock s e) := by
    rw [hid, (touch_merged htype hmerge).2]
    exact hblock
  have hmove : ∃ u latency, sim.moveToHbm order
      (recordMiss (storeBlock s e (accessedBlock s e)) (accessedBlock s e)) (accessedBlock s e) e.step =
        .ok (u, latency) :=
    moveToHbm_total ((stored_missedInHbm hs).consistent hs)
  obtain ⟨u, latency, hmove⟩ := hmove
  by_cases hout : (accessedBlock s e).objectId ∉ s.hbmBlocks
  · refine ⟨u, sim.missPenaltyUs + latency, Replay.bind_eq_ok.mpr ⟨_, htouch, ?_⟩⟩
    rw [hid]
    dsimp only
    rw [if_pos hout]
    exact Replay.bind_eq_ok.mpr ⟨_, hmove, rfl⟩
  · refine ⟨(storeBlock s e (accessedBlock s e)).recordUsage, 0,
      Replay.bind_eq_ok.mpr ⟨_, htouch, ?_⟩⟩
    rw [hid]
    dsimp only
    rw [if_neg hout]
    rfl

/-- The scores of a merged intent are in range. -/
theorem mergeIncoming_ranges {intent : MemoryIntent}
    (hmerge : mergeIncoming e e.intent (s.liveBlocks.get? e.objectId) = .ok intent) :
    (0 ≤ intent.requestPriority ∧ intent.requestPriority ≤ 100) ∧
      (0 ≤ intent.recencyScore ∧ intent.recencyScore ≤ 1) := by
  cases hget : s.liveBlocks.get? e.objectId with
  | none =>
    rw [hget] at hmerge
    cases hmerge
    exact ⟨e.intent_valid.requestPriority_range, e.intent_valid.recencyScore_range⟩
  | some existing =>
    rw [hget] at hmerge
    have hmerged := (MemoryIntent.postInit_ok hmerge).2
    exact ⟨hmerged.requestPriority_range, hmerged.recencyScore_range⟩

theorem runMarkedDecodeCritical_total {intent : MemoryIntent} (hvalid : AllValid s)
    (hmerge : mergeIncoming e e.intent (s.liveBlocks.get? e.objectId) = .ok intent) :
    ∃ t latency, runMarkedDecodeCritical s (s.liveBlocks.get? e.objectId) intent = .ok (t, latency) := by
  obtain ⟨hprio, hrec⟩ := mergeIncoming_ranges hmerge
  cases hget : s.liveBlocks.get? e.objectId with
  | none =>
    rw [hget] at hmerge
    cases hmerge
    have hsame : MemoryIntent.SamePlacement
        { e.intent with priority := .decodeCritical, pinRequested := true } e.intent :=
      ⟨rfl, rfl, rfl, rfl, rfl, rfl, rfl⟩
    obtain ⟨block, hblock⟩ := hsame.postInit_ok e.intent_valid hprio hrec
    exact ⟨_, _, Replay.bind_eq_ok.mpr ⟨block, hblock, rfl⟩⟩
  | some existing =>
    have hsame : (markDecodeCritical existing intent).SamePlacement existing :=
      ⟨rfl, rfl, rfl, rfl, rfl, rfl, rfl⟩
    obtain ⟨block, hblock⟩ := hsame.postInit_ok (hvalid _ _ hget) hprio hrec
    exact ⟨_, _, Replay.bind_eq_ok.mpr ⟨block, hblock, rfl⟩⟩

theorem runMarkedCold_total {intent : MemoryIntent} (hvalid : AllValid s)
    (hmerge : mergeIncoming e e.intent (s.liveBlocks.get? e.objectId) = .ok intent) :
    ∃ t latency, runMarkedCold s (s.liveBlocks.get? e.objectId) intent = .ok (t, latency) := by
  obtain ⟨-, hrec⟩ := mergeIncoming_ranges hmerge
  cases hget : s.liveBlocks.get? e.objectId with
  | none => exact ⟨_, _, rfl⟩
  | some existing =>
    have hsame : (markCold existing intent).SamePlacement existing := ⟨rfl, rfl, rfl, rfl, rfl, rfl, rfl⟩
    obtain ⟨block, hblock⟩ :=
      hsame.postInit_ok (hvalid _ _ hget) (hvalid _ _ hget).requestPriority_range hrec
    exact ⟨_, _, Replay.bind_eq_ok.mpr ⟨block, hblock, rfl⟩⟩

theorem runCommitted_total {intent : MemoryIntent} (hvalid : AllValid s) (e : MemoryIntentEvent) :
    ∃ t latency, runCommitted s (s.liveBlocks.get? e.objectId) intent = .ok (t, latency) := by
  cases hget : s.liveBlocks.get? e.objectId with
  | none => exact ⟨_, _, rfl⟩
  | some existing =>
    have hexisting := hvalid _ _ hget
    have hsame : MemoryIntent.SamePlacement { existing with isCommitted := true, isDraft := false }
        existing := ⟨rfl, rfl, rfl, rfl, rfl, rfl, rfl⟩
    obtain ⟨block, hblock⟩ :=
      hsame.postInit_ok hexisting hexisting.requestPriority_range hexisting.recencyScore_range
    exact ⟨_, _, Replay.bind_eq_ok.mpr ⟨block, hblock, rfl⟩⟩

theorem runSpilled_total (hvalid : AllValid s) (e : MemoryIntentEvent) :
    ∃ t latency, sim.runSpilled s (s.liveBlocks.get? e.objectId) = .ok (t, latency) := by
  cases hget : s.liveBlocks.get? e.objectId with
  | none => exact ⟨_, _, rfl⟩
  | some existing =>
    unfold runSpilled
    dsimp only
    split
    · rename_i hallowed
      have hblock := ((hvalid _ _ hget).retier hallowed).postInit
      exact ⟨_, _, Replay.bind_eq_ok.mpr ⟨_, hblock, rfl⟩⟩
    · exact ⟨_, _, rfl⟩

theorem runPrefetched_total (hs : s.Consistent) (e : MemoryIntentEvent) :
    ∃ t latency, sim.runPrefetched order s e.step (s.liveBlocks.get? e.objectId) e.intent =
      .ok (t, latency) := by
  cases hget : s.liveBlocks.get? e.objectId with
  | none => exact ⟨_, _, rfl⟩
  | some existing =>
    have hid : existing.objectId = e.intent.objectId := hs.objectId_eq _ _ hget
    have hmerged : mergeIntent existing e.intent IntentField.all = .ok e.intent := by
      rw [mergeIntent, overwrite_all hid]
      exact e.intent_valid.postInit
    have hmove : ∃ u latency, sim.moveToHbm order
        { storeBlock s e e.intent with prefetchCount := s.prefetchCount + 1 } e.intent e.step =
          .ok (u, latency) :=
      moveToHbm_total (stored_prefetchedInHbm.consistent hs)
    obtain ⟨u, latency, hmove⟩ := hmove
    unfold runPrefetched
    dsimp only
    split
    · by_cases haccept : sim.policy.shouldPrefetch e.intent e.step = true
      · refine ⟨sim.logDecision u e.step .prefetch e.intent (sim.prefetchReason e.intent) false,
          sim.prefetchLatencyUs + latency, Replay.bind_eq_ok.mpr ⟨_, hmerged, ?_⟩⟩
        rw [if_pos haccept]
        exact Replay.bind_eq_ok.mpr ⟨_, hmove, rfl⟩
      · refine ⟨storeBlock s e e.intent, 0, Replay.bind_eq_ok.mpr ⟨_, hmerged, ?_⟩⟩
        rw [if_neg haccept]
        rfl
    · exact ⟨_, _, rfl⟩

theorem dispatch_total {intent : MemoryIntent} (hs : s.Consistent) (hvalid : AllValid s)
    (hmerge : mergeIncoming e e.intent (s.liveBlocks.get? e.objectId) = .ok intent) :
    ∃ t latency, sim.dispatch order s e (s.liveBlocks.get? e.objectId) intent = .ok (t, latency) := by
  have hall : mergeFields e.eventType = IntentField.all → intent = e.intent :=
    intent_eq_of_merge hs hmerge
  unfold dispatch
  cases htype : e.eventType with
  | allocated =>
    obtain rfl := hall (by rw [htype]; rfl)
    exact runAllocated_total hs e
  | accessed => exact runAccessed_total hs hvalid htype hmerge
  | markedDecodeCritical => exact runMarkedDecodeCritical_total hvalid hmerge
  | markedCold => exact runMarkedCold_total hvalid hmerge
  | committed => exact runCommitted_total hvalid e
  | spilled => exact runSpilled_total hvalid e
  | prefetched =>
    obtain rfl := hall (by rw [htype]; rfl)
    exact runPrefetched_total hs e
  | miss => exact ⟨_, _, rfl⟩
  | evicted => exact ⟨_, _, rfl⟩
  | freed => exact ⟨_, _, rfl⟩

theorem decayBlock_total {b : MemoryIntent} (hb : b.Valid) : ∃ b', decayBlock b = .ok b' := by
  have hsame : MemoryIntent.SamePlacement { b with recencyScore := max (b.recencyScore - 0.03) 0 } b :=
    ⟨rfl, rfl, rfl, rfl, rfl, rfl, rfl⟩
  refine hsame.postInit_ok hb hb.requestPriority_range ⟨le_max_right _ _, max_le ?_ zero_le_one⟩
  have hrec := hb.recencyScore_range.2
  linarith

theorem decayRecency_total (currentStep : ℤ) (hvalid : AllValid s) :
    ∃ u, decayRecency s currentStep = .ok u := by
  unfold decayRecency
  split
  · obtain ⟨live, hlive⟩ := OrderedDict.traverse_ok fun id b hb => decayBlock_total (hvalid id b hb)
    exact ⟨_, Replay.bind_eq_ok.mpr ⟨live, hlive, rfl⟩⟩
  · exact ⟨_, rfl⟩

/-- An event that keeps tiers allowed goes through and leaves valid blocks. -/
theorem runEvent_total (hs : s.Consistent) (hvalid : AllValid s)
    (hkeeps : KeepsTiersAllowed sim order s e) :
    ∃ s', sim.runEvent order s e = .ok s' ∧ s'.Consistent ∧ AllValid s' := by
  obtain ⟨intent, hmerge⟩ := mergeIncoming_total hs hvalid e
  have hdispatch : ∃ t latency,
      sim.dispatch order s e (s.liveBlocks.get? e.objectId) intent = .ok (t, latency) :=
    dispatch_total hs hvalid hmerge
  obtain ⟨t, latency, hdispatch⟩ := hdispatch
  have hd := dispatch_ok hs hkeeps.displaced hmerge hdispatch
  have ht := hd.allValid hs hvalid hkeeps
  obtain ⟨u, hdecay⟩ := decayRecency_total e.step ht
  have hrun : sim.runEvent order s e =
      .ok { u with latencies := u.latencies ++ [sim.baseStepLatencyUs + latency] } :=
    Replay.bind_eq_ok.mpr ⟨_, e.intent_valid.postInit, Replay.bind_eq_ok.mpr ⟨_, hmerge,
      Replay.bind_eq_ok.mpr ⟨_, hdispatch, Replay.bind_eq_ok.mpr ⟨_, hdecay, rfl⟩⟩⟩⟩
  have hsettled : Settled sim e latency t
      { u with latencies := u.latencies ++ [sim.baseStepLatencyUs + latency] } :=
    settled_of_decay (hd.consistent hs) hdecay rfl
  refine ⟨_, hrun, hsettled.consistent (hd.consistent hs), fun id b' hb' => ?_⟩
  obtain ⟨b, hb, hage⟩ := hsettled.aged.of_some hb'
  exact hage.valid (ht id b hb)

/-- A replay that keeps tiers allowed goes through and leaves valid blocks. -/
theorem replay_total {events : List MemoryIntentEvent}
    (hkeeps : Replay.Meets (sim.runEvent order) (KeepsTiersAllowed sim order) SimulatorState.initial events) :
    ∃ s, sim.replay order SimulatorState.initial events = .ok s ∧ s.Consistent ∧ AllValid s := by
  have hinitial : AllValid SimulatorState.initial := by simp [AllValid, SimulatorState.initial]
  refine Replay.run_progress (P := fun s => s.Consistent ∧ AllValid s) ?_
    ⟨SimulatorState.consistent_initial, hinitial⟩ hkeeps
  rintro s e ⟨hs, hvalid⟩ hkeeps
  exact runEvent_total hs hvalid hkeeps

/-- A run whose events move no block into a tier it does not allow, and carry no number too large
for a float, finishes without raising, and after every event each live block passes the checks of the
constructor. -/
theorem run_never_raises {events : List MemoryIntentEvent}
    (hp : sim.policy.AccessBased ∨ sim.policy.IntentAware)
    (hkeeps : Replay.Meets (sim.runEvent order) (KeepsTiersAllowed sim order) SimulatorState.initial events)
    (hrange : ∀ e ∈ events, e.InFloatRange) :
    (∃ s' result, sim.runInFloats order SimulatorState.initial events = .ok (s', result)) ∧
      ∀ pre, pre <+: events →
        ∃ s, sim.replayInFloats order SimulatorState.initial pre = .ok s ∧
          ∀ id b, s.liveBlocks.get? id = some b → b.Valid := by
  have hfloats := PlacementPolicy.floatsFit_of_cases hp
  refine ⟨?_, fun pre hpre => ?_⟩
  · obtain ⟨s', hs', -, -⟩ := replay_total hkeeps
    exact ⟨s', _, runInFloats_of_ok hfloats hrange (run_of_replay hs')⟩
  · obtain ⟨s, hs, -, hvalid⟩ := replay_total (hkeeps.restrict hpre)
    have hrange' : ∀ e ∈ pre, e.InFloatRange := fun e he => hrange e (hpre.subset he)
    exact ⟨s, replayInFloats_of_ok hfloats hrange' SimulatorState.consistent_initial (eachBlock_initial _) hs,
      hvalid⟩

/-- A miss, a displacement to DRAM and a prefetch among blocks that allow both
tiers. -/
def allowedTrace : List MemoryIntentEvent :=
  [sampleEvent 0 .allocated (sampleIntent "a" {.hbm, .dram} .hbm),
    sampleEvent 1 .accessed (sampleIntent "b" {.hbm, .dram} .dram),
    sampleEvent 2 .prefetched { sampleIntent "a" {.hbm, .dram} .dram with
      prefetchOk := true, priority := .hot, deadlineUs := some 10 }]

def tenBytes (policy : PlacementPolicy) : KVMemorySimulator where
  policy := policy
  hbmCapacityBytes := 10
  dramCapacityBytes := 100

theorem run_never_raises_allowed :
    (∃ s' result, (tenBytes DeadlineAwarePolicy).runInFloats SetOrder.fastestFirst SimulatorState.initial
        allowedTrace = .ok (s', result)) ∧
      ∀ pre, pre <+: allowedTrace →
        ∃ s, (tenBytes DeadlineAwarePolicy).replayInFloats SetOrder.fastestFirst SimulatorState.initial pre =
            .ok s ∧ ∀ id b, s.liveBlocks.get? id = some b → b.Valid :=
  run_never_raises (.inr PlacementPolicy.intentAware_deadline) (by decide +kernel) (by decide +kernel)

/-- An access to a block that is only allowed in DRAM. -/
def dramOnlyTrace : List MemoryIntentEvent :=
  [sampleEvent 0 .accessed (sampleIntent "a" {.dram} .dram)]

/-- Two blocks whose deadlines are too large for a float, in an HBM that holds one. -/
def hugeDeadlineTrace : List MemoryIntentEvent :=
  [sampleEvent 0 .allocated { sampleIntent "a" {.hbm, .dram} .hbm with deadlineUs := some (10 ^ 400) },
    sampleEvent 1 .allocated { sampleIntent "b" {.hbm, .dram} .hbm with deadlineUs := some (10 ^ 400) }]

/-- Without the bound on its numbers a run may raise as well. -/
example :
    (tenBytes IntentAwarePolicy).runInFloats SetOrder.fastestFirst SimulatorState.initial
      hugeDeadlineTrace = .error (.overflowError "int too large to convert to float") := by
  obtain ⟨e, h, hcheck⟩ := Replay.error_of_check
    (x := (tenBytes IntentAwarePolicy).runInFloats SetOrder.fastestFirst SimulatorState.initial
      hugeDeadlineTrace)
    (p := fun e => decide (e = .overflowError "int too large to convert to float"))
    (by decide +kernel)
  rw [h, of_decide_eq_true hcheck]

/-- The miss moves the block to HBM, and the decay pass after it raises. -/
theorem dram_only_access_raises :
    policyFromName "lru" = .ok LRUPolicy ∧
    (tenBytes LRUPolicy).runInFloats SetOrder.fastestFirst SimulatorState.initial dramOnlyTrace =
      .error (.valueError "current_tier must be present in allowed_tiers") := by
  refine ⟨rfl, ?_⟩
  obtain ⟨e, h, hcheck⟩ := Replay.error_of_check
    (x := (tenBytes LRUPolicy).runInFloats SetOrder.fastestFirst SimulatorState.initial dramOnlyTrace)
    (p := fun e => decide (e = .valueError "current_tier must be present in allowed_tiers"))
    (by decide +kernel)
  rw [h, of_decide_eq_true hcheck]

end KVMemorySimulator

end KVMemoryIntent
