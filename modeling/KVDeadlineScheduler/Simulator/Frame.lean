-- SUMMARY: What an event leaves alone: every other live block, apart from the decay and the displacements that the log reports.
import KVDeadlineScheduler.Simulator.HbmBound

/-!
# Events do not interfere across objects

The branches of `run` write under the object of the event. Another block is
written only by the capacity loop, which reports each displacement in the log,
and by the decay pass, which lowers its recency.
-/

namespace KVMemoryIntent

namespace KVMemorySimulator

variable {sim : KVMemorySimulator} {order : SetOrder} {s s' t u : SimulatorState}
  {e : MemoryIntentEvent} {latency : ℤ} {C : SimulatorState → MemoryIntent → Prop} {id : String}

/-! ## Residency of one block -/

/-- The block `id` is stored and resides as before. -/
structure SameResidency (s t : SimulatorState) (id : String) : Prop where
  live : t.liveBlocks.get? id = s.liveBlocks.get? id
  hbm : id ∈ t.hbmBlocks ↔ id ∈ s.hbmBlocks
  dram : id ∈ t.dramBlocks ↔ id ∈ s.dramBlocks

theorem SameResidency.trans (h : SameResidency s t id) (h' : SameResidency t u id) :
    SameResidency s u id :=
  ⟨h'.live.trans h.live, h'.hbm.trans h.hbm, h'.dram.trans h.dram⟩

/-- The log of `t` goes on from that of `s`, with a report that `id` was displaced. -/
def DisplacedIn (s t : SimulatorState) (id : String) : Prop :=
  ∃ new, t.decisionLog = s.decisionLog ++ new ∧ ∃ r ∈ new, ReportsDisplaced id r

/-- The block `id` is as before, or it was displaced and changed its tier. -/
inductive Spared (s t : SimulatorState) (id : String) : Prop where
  | same (h : SameResidency s t id)
  | displaced {b b' : MemoryIntent} (hlog : DisplacedIn s t id)
      (hget : s.liveBlocks.get? id = some b) (hget' : t.liveBlocks.get? id = some b')
      (hretiered : SimulatorState.Retiered b b')

/-! ## The capacity loop -/

theorem CapacityRun.log_prefix {currentStep : ℤ}
    (h : CapacityRun sim order currentStep C s latency t) : s.decisionLog <+: t.decisionLog := by
  induction h with
  | fits => exact List.prefix_refl _
  | @allPinned s => exact List.prefix_append _ _
  | noVictim => exact List.prefix_refl _
  | @displace s t victim latency _ _ _ ih =>
    obtain ⟨r, hlog, -⟩ : ∃ r, (sim.displaceVictim order s victim currentStep).1.decisionLog =
        s.decisionLog ++ [r] ∧ ReportsDisplaced victim.objectId r := displaceVictim_reports
    rw [hlog] at ih
    exact (List.prefix_append _ _).trans ih

/-- What the loop takes out of HBM, the log reports. -/
theorem CapacityRun.displacedIn {currentStep : ℤ}
    (h : CapacityRun sim order currentStep C s latency t) (hs : s.Consistent)
    (hin : id ∈ s.hbmBlocks) (hout : id ∉ t.hbmBlocks) : DisplacedIn s t id := by
  induction h with
  | fits => exact absurd hin hout
  | allPinned => exact absurd hin hout
  | noVictim => exact absurd hin hout
  | @displace s t victim latency hcheck _ hrest ih =>
    obtain ⟨r, hlog, hreports⟩ : ∃ r, (sim.displaceVictim order s victim currentStep).1.decisionLog =
        s.decisionLog ++ [r] ∧ ReportsDisplaced victim.objectId r := displaceVictim_reports
    have hframe := displaceVictim_frame sim currentStep hs (victim_mem_candidates hcheck)
    by_cases heq : id = victim.objectId
    · obtain ⟨new, hnew⟩ := hrest.log_prefix
      rw [hlog, List.append_assoc] at hnew
      exact ⟨[r] ++ new, hnew.symm, r, by simp, heq ▸ hreports⟩
    · have hin' : id ∈ (sim.displaceVictim order s victim currentStep).1.hbmBlocks := by
        rw [displaceVictim_hbmBlocks]
        exact Finset.mem_erase.mpr ⟨heq, hin⟩
      obtain ⟨new, hnew, hmem⟩ := ih (hframe.consistent hs) hin' hout
      rw [hlog, List.append_assoc] at hnew
      obtain ⟨r', hr', hreports'⟩ := hmem
      exact ⟨[r] ++ new, hnew, r', by simp [hr'], hreports'⟩

theorem CapacityRun.spared {currentStep : ℤ} (h : CapacityRun sim order currentStep C s latency t)
    (hs : s.Consistent) {b : MemoryIntent} (hget : s.liveBlocks.get? id = some b) :
    Spared s t id := by
  have hframe := h.frame hs
  by_cases hleft : id ∈ s.hbmBlocks ∧ id ∉ t.hbmBlocks
  · obtain ⟨b', hget', hretiered⟩ := (hframe.retiered id).2 b hget
    exact .displaced (h.displacedIn hs hleft.1 hleft.2) hget hget' hretiered
  · have hstays : id ∈ s.hbmBlocks → id ∈ t.hbmBlocks := fun hin =>
      not_not.mp fun hout => hleft ⟨hin, hout⟩
    obtain ⟨hlive, hdram⟩ := hframe.kept id hstays
    exact .same ⟨hlive, ⟨fun hin => hframe.hbm_subset hin, hstays⟩, hdram⟩

/-- The loop, entered from a state in which `id` is as before. -/
theorem Spared.of_loop (hentry : SameResidency s t id) (hlog : t.decisionLog = s.decisionLog)
    (h : Spared t u id) : Spared s u id := by
  cases h with
  | same h => exact .same (hentry.trans h)
  | displaced hdisplaced hget hget' hretiered =>
    refine .displaced ?_ (hentry.live ▸ hget) hget' hretiered
    obtain ⟨new, hnew, hmem⟩ := hdisplaced
    exact ⟨new, hlog ▸ hnew, hmem⟩

/-- Bookkeeping after the loop, which may log more. -/
theorem Spared.then_same (h : Spared s t id) (hsame : SameResidency t u id)
    (hlog : t.decisionLog <+: u.decisionLog) : Spared s u id := by
  cases h with
  | same h => exact .same (h.trans hsame)
  | displaced hdisplaced hget hget' hretiered =>
    refine .displaced ?_ hget (hsame.live.trans hget') hretiered
    obtain ⟨new, hnew, r, hr, hreports⟩ := hdisplaced
    obtain ⟨more, hmore⟩ := hlog
    exact ⟨new ++ more, by rw [← hmore, hnew, List.append_assoc], r, by simp [hr], hreports⟩

theorem sameResidency_recordUsage (s : SimulatorState) (id : String) :
    SameResidency s s.recordUsage id :=
  ⟨rfl, Iff.rfl, Iff.rfl⟩

/-! ## Events -/

section OtherBlocks

variable (hne : id ≠ e.objectId)
include hne

/-- A block is stored under the object of the event, and the sets change in that
object at most. -/
theorem SameResidency.of_stored {block : MemoryIntent} (h : Stored s e block t)
    (hhbm : id ∈ s.hbmBlocks → id ∈ t.hbmBlocks) (hdram : id ∈ s.dramBlocks → id ∈ t.dramBlocks) :
    SameResidency s t id := by
  refine ⟨?_, ⟨fun hin => ?_, hhbm⟩, ⟨fun hin => ?_, hdram⟩⟩
  · rw [h.liveBlocks, OrderedDict.get?_set_of_ne _ _ hne]
  · exact (Finset.mem_insert.mp (h.hbm_subset hin)).resolve_left hne
  · exact (Finset.mem_insert.mp (h.dram_subset hin)).resolve_left hne

theorem sameResidency_storeBlock (block : MemoryIntent) : SameResidency s (storeBlock s e block) id :=
  ⟨OrderedDict.get?_set_of_ne _ _ hne, Iff.rfl, Iff.rfl⟩

theorem sameResidency_missedInHbm (hs : s.Consistent) : SameResidency s (missedInHbm s e) id := by
  refine .of_stored hne (stored_missedInHbm hs) (fun hin => ?_) fun hin => ?_
  · rw [missedInHbm_hbmBlocks hs]
    exact Finset.mem_insert_of_mem hin
  · rw [missedInHbm_dramBlocks hs]
    exact Finset.mem_erase.mpr ⟨hne, hin⟩

theorem sameResidency_storeSpilled {existing : MemoryIntent} (hs : s.Consistent)
    (hget : s.liveBlocks.get? e.objectId = some existing) :
    SameResidency s (storeSpilled s { existing with currentTier := .dram }) id := by
  have hid : existing.objectId = e.objectId := hs.objectId_eq _ _ hget
  refine .of_stored hne (stored_spilled hs hget) (fun hin => ?_) fun hin => ?_
  · exact Finset.mem_erase.mpr ⟨hid ▸ hne, hin⟩
  · exact Finset.mem_insert_of_mem hin

theorem sameResidency_storeEvicted {existing : MemoryIntent} (hs : s.Consistent)
    (hget : s.liveBlocks.get? e.objectId = some existing) :
    SameResidency s (storeEvicted s existing) id := by
  have hid : existing.objectId = e.objectId := hs.objectId_eq _ _ hget
  have hnot : id ≠ existing.objectId := hid ▸ hne
  exact ⟨rfl, by simp [storeEvicted, hnot], by simp [storeEvicted, hnot]⟩

theorem sameResidency_runFreed : SameResidency s (runFreed s e.intent) id := by
  have hnot : id ≠ e.intent.objectId := hne
  exact ⟨OrderedDict.get?_erase_of_ne _ hne, by simp [runFreed, hnot], by simp [runFreed, hnot]⟩

/-- An event spares the live blocks it does not name. -/
theorem Dispatched.spared (h : Dispatched sim order C s e t latency) (hs : s.Consistent)
    {b : MemoryIntent} (hget : s.liveBlocks.get? id = some b) : Spared s t id := by
  have hloop : ∀ {entry u : SimulatorState} {l : ℤ}, CapacityRun sim order e.step C entry l u →
      entry.Consistent → SameResidency s entry id → entry.decisionLog = s.decisionLog →
      Spared s u.recordUsage id := by
    intro entry u l hrun hentry hsame hlog
    have hspared := hrun.spared hentry (hsame.live.trans hget)
    exact (hspared.of_loop hsame hlog).then_same (sameResidency_recordUsage u id) (List.prefix_refl _)
  cases h with
  | allocatedHbm _ _ hrun =>
    have hsame : SameResidency s (allocatedInHbm s e) id :=
      .of_stored hne stored_allocatedInHbm Finset.mem_insert_of_mem fun hin => hin
    exact hloop hrun (stored_allocatedInHbm.consistent hs) hsame rfl
  | allocatedDram =>
    have hsame : SameResidency s (allocatedInDram s e) id :=
      .of_stored hne stored_allocatedInDram (fun hin => hin) Finset.mem_insert_of_mem
    exact .same (hsame.trans (sameResidency_recordUsage _ id))
  | allocatedOther =>
    have hsame : SameResidency s (storeAllocated s e.intent) id :=
      .of_stored hne stored_storeAllocated (fun hin => hin) fun hin => hin
    exact .same (hsame.trans (sameResidency_recordUsage _ id))
  | hit => exact .same ((sameResidency_storeBlock hne _).trans (sameResidency_recordUsage _ id))
  | miss _ _ _ hrun =>
    exact hloop hrun ((stored_missedInHbm hs).consistent hs) (sameResidency_missedInHbm hne hs) rfl
  | markedUnknown => exact .same (sameResidency_storeBlock hne _)
  | annotated => exact .same (sameResidency_storeBlock hne _)
  | spilled _ hexisting => exact .same (sameResidency_storeSpilled hne hs hexisting)
  | prefetchDeclined => exact .same (sameResidency_storeBlock hne _)
  | prefetched _ hrun =>
    have hsame : SameResidency s (prefetchedInHbm s e) id :=
      .of_stored hne stored_prefetchedInHbm Finset.mem_insert_of_mem
        fun hin => Finset.mem_erase.mpr ⟨hne, hin⟩
    have hspared := hloop hrun (stored_prefetchedInHbm.consistent hs) hsame rfl
    exact hspared.then_same ⟨rfl, Iff.rfl, Iff.rfl⟩ (List.prefix_append _ _)
  | evicted _ hexisting => exact .same (sameResidency_storeEvicted hne hs hexisting)
  | freed => exact .same (sameResidency_runFreed hne)
  | unchanged => exact .same ⟨rfl, Iff.rfl, Iff.rfl⟩

end OtherBlocks

/-! ## The decay pass -/

/-- The block is the same but for its recency, which stays or decays once. -/
def Decayed (b b' : MemoryIntent) : Prop :=
  ∃ r, (r = b.recencyScore ∨ r = max (b.recencyScore - 0.03) 0) ∧ b' = { b with recencyScore := r }

theorem decayRecency_decayed {step : ℤ} (ht : t.Consistent) (h : decayRecency t step = .ok u) :
    t.LiveRel Decayed u := by
  unfold decayRecency at h
  split at h
  · obtain ⟨live, hlive, hu⟩ := Replay.bind_eq_ok.mp h
    cases hu
    intro id
    obtain ⟨hnone, hsome⟩ := OrderedDict.traverse_get? hlive id
    refine ⟨hnone, fun b hb => ?_⟩
    obtain ⟨b', hdecay, hb'⟩ := hsome b hb
    obtain ⟨heq, -⟩ := MemoryIntent.postInit_eq hdecay (ht.sound id b hb).pinned
    exact ⟨b', hb', _, .inr rfl, heq⟩
  · cases h
    exact .of_eq (fun b => ⟨b.recencyScore, .inl rfl, rfl⟩) rfl

/-- An event that is processed leaves every other live block live, with all
fields but the recency and the tier unchanged. The recency stays or decays once,
and the tier and the residency change only when the log of the event reports that
the block was displaced. -/
theorem events_do_not_interfere {events : List MemoryIntentEvent} {b : MemoryIntent}
    (hreach : sim.replay order SimulatorState.initial events = .ok s)
    (h : sim.runEvent order s e = .ok s') (hget : s.liveBlocks.get? id = some b)
    (hne : id ≠ e.objectId) :
    ∃ b', s'.liveBlocks.get? id = some b' ∧
      b' = { b with recencyScore := b'.recencyScore, currentTier := b'.currentTier } ∧
      (b'.recencyScore = b.recencyScore ∨ b'.recencyScore = max (b.recencyScore - 0.03) 0) ∧
      (¬(b'.currentTier = b.currentTier ∧ (id ∈ s'.hbmBlocks ↔ id ∈ s.hbmBlocks) ∧
          (id ∈ s'.dramBlocks ↔ id ∈ s.dramBlocks)) →
        ∃ new, s'.decisionLog = s.decisionLog ++ new ∧ ∃ r ∈ new, r.victimObjectId = some id ∧
          (r.action = .spill ∨ r.action = .evict)) := by
  have hs : s.Consistent := replay_consistent SimulatorState.consistent_initial hreach
  obtain ⟨t, latency, u, hd, hdecay, heq⟩ := runEvent_dispatched hs victimsMeet_true h
  have ht := hd.consistent hs
  have hsettled : Settled sim e latency t s' := settled_of_decay ht hdecay heq
  have hlog : s'.decisionLog = t.decisionLog := by rw [hsettled.eq]
  have hdecayed : t.LiveRel Decayed s' := by
    have hu := decayRecency_decayed ht hdecay
    rw [heq]
    exact hu
  cases hd.spared hne hs hget with
  | same hsame =>
    obtain ⟨b', hb', r, hr, rfl⟩ := (hdecayed id).2 b (hsame.live.trans hget)
    refine ⟨_, hb', rfl, hr, fun hchanged => absurd ⟨rfl, ?_, ?_⟩ hchanged⟩
    · rw [hsettled.hbmBlocks]
      exact hsame.hbm
    · rw [hsettled.dramBlocks]
      exact hsame.dram
  | displaced hdisplaced hget₁ hget' hretiered =>
    rw [hget] at hget₁
    cases hget₁
    obtain ⟨tier, rfl⟩ := hretiered
    obtain ⟨b', hb', r, hr, rfl⟩ := (hdecayed id).2 _ hget'
    refine ⟨_, hb', rfl, hr, fun _ => ?_⟩
    rw [hlog]
    exact hdisplaced

/-- An access of `a` displaces `b`. -/
theorem events_do_not_interfere_pressure :
    ∃ s s' b b', (pressured LRUPolicy).replay SetOrder.fastestFirst SimulatorState.initial
        (pressureTrace.take 3) = .ok s ∧
      (pressured LRUPolicy).runEvent SetOrder.fastestFirst s
        (sampleEvent 3 .accessed (sampleIntent "a" {.hbm, .dram} .hbm)) = .ok s' ∧
      s.liveBlocks.get? "b" = some b ∧ s'.liveBlocks.get? "b" = some b' ∧
      b' = { b with recencyScore := b'.recencyScore, currentTier := b'.currentTier } ∧
      ∃ new, s'.decisionLog = s.decisionLog ++ new ∧ ∃ r ∈ new, r.victimObjectId = some "b" ∧
        (r.action = .spill ∨ r.action = .evict) := by
  obtain ⟨⟨s, s'⟩, h, hcheck⟩ := Replay.exists_of_check
    (x := do
      let s ← (pressured LRUPolicy).replay SetOrder.fastestFirst SimulatorState.initial
        (pressureTrace.take 3)
      let s' ← (pressured LRUPolicy).runEvent SetOrder.fastestFirst s
        (sampleEvent 3 .accessed (sampleIntent "a" {.hbm, .dram} .hbm))
      pure (s, s'))
    (p := fun r => decide ((r.1.liveBlocks.get? "b").isSome ∧ "b" ∈ r.1.hbmBlocks ∧ "b" ∉ r.2.hbmBlocks))
    (by decide +kernel)
  obtain ⟨s₀, hreach, h⟩ := Replay.bind_eq_ok.mp h
  obtain ⟨s₁, hstep, h⟩ := Replay.bind_eq_ok.mp h
  cases h
  obtain ⟨hlive, hin, hout⟩ := of_decide_eq_true hcheck
  obtain ⟨b, hget⟩ := Option.isSome_iff_exists.mp hlive
  obtain ⟨b', hget', hsame, -, hreport⟩ := events_do_not_interfere hreach hstep hget (by decide +kernel)
  exact ⟨s, s', b, b', hreach, hstep, hget, hget', hsame, hreport fun hkept => hout (hkept.2.1.mpr hin)⟩

end KVMemorySimulator

end KVMemoryIntent
