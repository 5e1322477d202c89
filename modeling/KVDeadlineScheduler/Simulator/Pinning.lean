-- SUMMARY: Pinned blocks under intent-aware policies: they stay in HBM, and no displacement names one.
import KVDeadlineScheduler.Simulator.HbmBound

/-!
# Pinned blocks

An intent-aware policy picks a pinned victim only from candidates that are all
pinned, and in that case the capacity loop breaks before it asks the policy. So
every victim is unpinned, and by the pin rule of the constructor it is not of
decode-critical priority either.
-/

namespace KVMemoryIntent

namespace SimulatorState

/-- The live block `id` is pinned. -/
def Pinned (s : SimulatorState) (id : String) : Prop :=
  ∃ b, s.liveBlocks.get? id = some b ∧ b.pinRequested = true

/-- If the decision displaced a block, then that block is live and not pinned,
and it was not of decode-critical priority. -/
def SparesPinned (s : SimulatorState) (r : DecisionRecord) : Prop :=
  r.action = .spill ∨ r.action = .evict →
    r.victimPriority ≠ some .decodeCritical ∧
      ∃ id b, r.victimObjectId = some id ∧ s.liveBlocks.get? id = some b ∧ b.pinRequested = false

variable {s s' : SimulatorState} {R : MemoryIntent → MemoryIntent → Prop}

/-- Pins carry back along changes that keep them. -/
theorem LiveRel.pinned (hpin : ∀ a b, R a b → b.pinRequested = a.pinRequested) (h : LiveRel R s s')
    {id : String} (hs' : s'.Pinned id) : s.Pinned id := by
  obtain ⟨b', hb', hpinned⟩ := hs'
  obtain ⟨b, hb, hR⟩ := h.of_some hb'
  exact ⟨b, hb, (hpin b b' hR).symm.trans hpinned⟩

theorem LiveRel.sparesPinned (hpin : ∀ a b, R a b → b.pinRequested = a.pinRequested)
    (h : LiveRel R s s') {r : DecisionRecord} (hr : s.SparesPinned r) : s'.SparesPinned r := by
  intro haction
  obtain ⟨hprio, id, b, hid, hb, hunpinned⟩ := hr haction
  obtain ⟨b', hb', hR⟩ := (h id).2 b hb
  exact ⟨hprio, id, b', hid, hb', (hpin b b' hR).trans hunpinned⟩

theorem Retiered.pinRequested (a b : MemoryIntent) (h : Retiered a b) :
    b.pinRequested = a.pinRequested := by
  obtain ⟨t, rfl⟩ := h
  rfl

theorem Aged.pinRequested (a b : MemoryIntent) (h : Aged a b) : b.pinRequested = a.pinRequested := by
  obtain ⟨r, -, rfl⟩ := h
  rfl

end SimulatorState

namespace KVMemorySimulator

variable {sim : KVMemorySimulator} {order : SetOrder} {s s' t : SimulatorState}
  {e : MemoryIntentEvent} {latency : ℤ} {C : SimulatorState → MemoryIntent → Prop}

/-! ## The loop -/

/-- The victim of an intent-aware policy is not pinned. -/
theorem victim_unpinned {currentStep : ℤ} {victim : MemoryIntent} (hp : sim.policy.IntentAware)
    (h : sim.checkCapacity order s currentStep = .displace victim) : victim.pinRequested = false := by
  obtain ⟨-, hsome, hchoice⟩ := checkCapacity_displace h
  exact hp.victim_unpinned hchoice (hsome hp.protectsPinned)

theorem CapacityRun.keeps_pinned {currentStep : ℤ} (hp : sim.policy.IntentAware)
    (h : CapacityRun sim order currentStep C s latency s') (hs : s.Consistent) {id : String}
    (hin : id ∈ s.hbmBlocks) (hpin : s.Pinned id) : id ∈ s'.hbmBlocks := by
  induction h with
  | fits => exact hin
  | allPinned => exact hin
  | noVictim => exact hin
  | @displace s s' victim _ hcheck _ _ ih =>
    have hmem := victim_mem_candidates hcheck
    have hframe := displaceVictim_frame sim currentStep hs hmem
    obtain ⟨b, hb, hpinned⟩ := hpin
    -- the victim is not pinned, so it is another block
    have hne : id ≠ victim.objectId := by
      intro heq
      rw [heq, (SetOrder.get?_of_mem_candidates hs hmem).2] at hb
      rw [← Option.some.inj hb, victim_unpinned hp hcheck] at hpinned
      cases hpinned
    apply ih (hframe.consistent hs)
    · rw [displaceVictim_hbmBlocks]
      exact Finset.mem_erase.mpr ⟨hne, hin⟩
    · refine ⟨b, ?_, hpinned⟩
      rw [displaceVictim_liveBlocks, OrderedDict.get?_set_of_ne _ _ hne]
      exact hb

/-- Every decision the loop logs spares pinned blocks. -/
theorem CapacityRun.log_spares {currentStep : ℤ} (hp : sim.policy.IntentAware)
    (h : CapacityRun sim order currentStep C s latency s') (hs : s.Consistent) :
    ∃ new, s'.decisionLog = s.decisionLog ++ new ∧ ∀ r ∈ new, s'.SparesPinned r := by
  induction h with
  | fits => exact ⟨[], (List.append_nil _).symm, by simp⟩
  | allPinned =>
    refine ⟨[sim.exhaustionRecord currentStep], rfl, fun r hr haction => ?_⟩
    rw [List.mem_singleton.mp hr] at haction
    simp [exhaustionRecord] at haction
  | noVictim => exact ⟨[], (List.append_nil _).symm, by simp⟩
  | @displace s s' victim latency hcheck _ hrest ih =>
    have hmem := victim_mem_candidates hcheck
    have hframe := displaceVictim_frame sim currentStep hs hmem
    have hget := (SetOrder.get?_of_mem_candidates hs hmem).2
    have hunpinned := victim_unpinned hp hcheck
    obtain ⟨new, hnew, hspares⟩ := ih (hframe.consistent hs)
    have hlogged : ∃ action reason avoided,
        (sim.displaceVictim order s victim currentStep).1.decisionLog =
          s.decisionLog ++ [sim.decisionRecord currentStep action victim reason avoided] :=
      displaceVictim_decisionLog
    obtain ⟨action, reason, avoided, hlog⟩ := hlogged
    refine ⟨sim.decisionRecord currentStep action victim reason avoided :: new, ?_, fun r hr => ?_⟩
    · rw [hnew, hlog, List.append_assoc, List.singleton_append]
    · rcases List.mem_cons.mp hr with rfl | hr
      · have hfirst : s.SparesPinned (sim.decisionRecord currentStep action victim reason avoided) := by
          refine fun _ => ⟨fun hprio => ?_, victim.objectId, victim, rfl, hget, hunpinned⟩
          -- the pin rule of the constructor: a decode-critical block is pinned
          have hpinned := (hs.sound _ _ hget).pinned (Option.some.inj hprio)
          rw [hunpinned] at hpinned
          cases hpinned
        have hretiered := hframe.retiered.trans SimulatorState.Retiered.trans
          (hrest.frame (hframe.consistent hs)).retiered
        exact hretiered.sparesPinned SimulatorState.Retiered.pinRequested hfirst
      · exact hspares r hr

/-! ## Events -/

/-- The event takes its object out of HBM by name. -/
def Removes (e : MemoryIntentEvent) : Prop :=
  e.eventType = .spilled ∨ e.eventType = .evicted ∨ e.eventType = .freed

theorem Dispatched.keeps_pinned (hp : sim.policy.IntentAware)
    (h : Dispatched sim order C s e t latency) (hs : s.Consistent) {id : String}
    (hnamed : Removes e → e.objectId ≠ id) (hin : id ∈ s.hbmBlocks) (hpin : t.Pinned id) :
    id ∈ t.hbmBlocks := by
  have hloop : ∀ {entry u : SimulatorState} {l : ℤ}, CapacityRun sim order e.step C entry l u →
      entry.Consistent → id ∈ entry.hbmBlocks → u.Pinned id → id ∈ u.hbmBlocks := by
    intro entry u l hrun hentry hmem hpinned
    -- the loop changes no pins, so the block was pinned when it started
    have hback := (hrun.frame hentry).retiered.pinned SimulatorState.Retiered.pinRequested hpinned
    exact hrun.keeps_pinned hp hentry hmem hback
  cases h with
  | allocatedHbm _ _ hrun =>
    have hmem := hloop hrun (stored_allocatedInHbm.consistent hs) (Finset.mem_insert_of_mem hin) hpin
    exact hmem
  | miss _ _ _ hrun =>
    have hmem := hloop hrun ((stored_missedInHbm hs).consistent hs)
      (Finset.mem_insert_of_mem hin) hpin
    exact hmem
  | prefetched _ hrun =>
    have hmem := hloop hrun (stored_prefetchedInHbm.consistent hs) (Finset.mem_insert_of_mem hin) hpin
    exact hmem
  | spilled htype hget =>
    have hne := hnamed (.inl htype)
    rw [← hs.objectId_eq _ _ hget] at hne
    exact Finset.mem_erase.mpr ⟨hne.symm, hin⟩
  | evicted htype hget =>
    have hne := hnamed (.inr (.inl htype))
    rw [← hs.objectId_eq _ _ hget] at hne
    exact Finset.mem_erase.mpr ⟨hne.symm, hin⟩
  | freed htype => exact Finset.mem_erase.mpr ⟨(hnamed (.inr (.inr htype))).symm, hin⟩
  | _ => exact hin

theorem Dispatched.log_spares (hp : sim.policy.IntentAware)
    (h : Dispatched sim order C s e t latency) (hs : s.Consistent) :
    ∃ new, t.decisionLog = s.decisionLog ++ new ∧ ∀ r ∈ new, t.SparesPinned r := by
  cases h with
  | allocatedHbm _ _ hrun =>
    have hlog := hrun.log_spares hp (stored_allocatedInHbm.consistent hs)
    exact hlog
  | miss _ _ _ hrun =>
    have hlog := hrun.log_spares hp ((stored_missedInHbm hs).consistent hs)
    exact hlog
  | @prefetched u latency _ hrun =>
    obtain ⟨new, hnew, hspares⟩ := hrun.log_spares hp (stored_prefetchedInHbm.consistent hs)
    refine ⟨new ++ [sim.decisionRecord e.step .prefetch e.intent (sim.prefetchReason e.intent) false],
      ?_, fun r hr => ?_⟩
    · rw [← List.append_assoc]
      exact congrArg (· ++ _) hnew
    · rcases List.mem_append.mp hr with hr | hr
      · exact hspares r hr
      · intro haction
        rw [List.mem_singleton.mp hr] at haction
        simp [decisionRecord] at haction
  | _ => exact ⟨[], (List.append_nil _).symm, by simp⟩

theorem runEvent_keeps_pinned (hp : sim.policy.IntentAware) (hs : s.Consistent)
    (h : sim.runEvent order s e = .ok s') {id : String} (hnamed : Removes e → e.objectId ≠ id)
    (hin : id ∈ s.hbmBlocks) (hpin : s'.Pinned id) : id ∈ s'.hbmBlocks := by
  obtain ⟨t, latency, hd, -, hsettled⟩ := runEvent_ok hs victimsMeet_true h
  rw [hsettled.hbmBlocks]
  exact hd.keeps_pinned hp hs hnamed hin (hsettled.aged.pinned SimulatorState.Aged.pinRequested hpin)

theorem runEvent_log_spares (hp : sim.policy.IntentAware) (hs : s.Consistent)
    (h : sim.runEvent order s e = .ok s') :
    ∃ new, s'.decisionLog = s.decisionLog ++ new ∧ ∀ r ∈ new, s'.SparesPinned r := by
  obtain ⟨t, latency, hd, -, hsettled⟩ := runEvent_ok hs victimsMeet_true h
  obtain ⟨new, hnew, hspares⟩ := hd.log_spares hp hs
  refine ⟨new, ?_, fun r hr => ?_⟩
  · rw [hsettled.eq]
    exact hnew
  · exact hsettled.aged.sparesPinned SimulatorState.Aged.pinRequested (hspares r hr)

/-- No event on a block in HBM counts a miss. -/
theorem runEvent_hit (hs : s.Consistent) (h : sim.runEvent order s e = .ok s')
    (hin : e.objectId ∈ s.hbmBlocks) : s'.missCount = s.missCount := by
  obtain ⟨t, latency, hd, -, hsettled⟩ := runEvent_ok hs victimsMeet_true h
  rw [hsettled.eq]
  exact (hd.count_no_miss hs fun hmisses => hmisses.2 hin).1

/-! ## Runs -/

/-- A resident block that is pinned after every event, and that no event removes
by name, is resident after every event. -/
theorem replay_keeps_pinned (hp : sim.policy.IntentAware) {id : String}
    {events : List MemoryIntentEvent} (hs : s.Consistent)
    (hnamed : ∀ e ∈ events, Removes e → e.objectId ≠ id)
    (hpinned : ∀ pre u, pre <+: events → sim.replay order s pre = .ok u → u.Pinned id)
    (hin : id ∈ s.hbmBlocks) (h : sim.replay order s events = .ok s') : id ∈ s'.hbmBlocks := by
  induction events generalizing s with
  | nil =>
    cases h
    exact hin
  | cons e events ih =>
    obtain ⟨u, hstep, hrest⟩ := Replay.run_cons_ok.mp h
    have hu : u.Pinned id := by
      refine hpinned [e] u (List.prefix_append [e] events) ?_
      exact Replay.run_cons_ok.mpr ⟨u, hstep, rfl⟩
    apply ih (runEvent_consistent hs hstep) (fun e' he' => hnamed e' (List.mem_cons_of_mem _ he')) _ _ hrest
    · intro pre v hpre hv
      refine hpinned (e :: pre) v (List.cons_prefix_cons.mpr ⟨rfl, hpre⟩) ?_
      exact Replay.run_cons_ok.mpr ⟨u, hstep, hv⟩
    · exact runEvent_keeps_pinned hp hs hstep (hnamed e List.mem_cons_self) hin hu

/-- No decision in the log of a run displaced a block of decode-critical priority. -/
theorem replay_log_spares (hp : sim.policy.IntentAware) {events : List MemoryIntentEvent}
    (h : sim.replay order SimulatorState.initial events = .ok s) :
    ∀ r ∈ s.decisionLog, r.action = .spill ∨ r.action = .evict →
      r.victimPriority ≠ some .decodeCritical := by
  refine (Replay.run_always (P := fun s => s.Consistent ∧ ∀ r ∈ s.decisionLog,
    r.action = .spill ∨ r.action = .evict → r.victimPriority ≠ some .decodeCritical) ?_
    ⟨SimulatorState.consistent_initial, by simp [SimulatorState.initial]⟩ h).2
  rintro s e t ⟨hs, hlog⟩ hstep
  refine ⟨runEvent_consistent hs hstep, fun r hr haction => ?_⟩
  obtain ⟨new, hnew, hspares⟩ := runEvent_log_spares hp hs hstep
  rw [hnew] at hr
  rcases List.mem_append.mp hr with hr | hr
  · exact hlog r hr haction
  · exact (hspares r hr haction).1

/-- Under an intent-aware policy, from any state a run reaches: a resident pinned
block stays resident through every trace after which it is still pinned and that
does not remove it by name, so accesses to it are hits; no decision in the log
displaced a block of decode-critical priority; and the decisions each event logs
displace blocks that are not pinned. -/
theorem pinned_blocks_protected (hp : sim.policy.IntentAware) {history : List MemoryIntentEvent}
    (h : sim.replay order SimulatorState.initial history = .ok s) :
    (∀ id events, id ∈ s.hbmBlocks → (∀ e ∈ events, Removes e → e.objectId ≠ id) →
      (∀ pre u, pre <+: events → sim.replay order s pre = .ok u → u.Pinned id) →
      (∀ pre u, pre <+: events → sim.replay order s pre = .ok u → id ∈ u.hbmBlocks) ∧
      ∀ pre e u v, pre ++ [e] <+: events → sim.replay order s pre = .ok u →
        sim.runEvent order u e = .ok v → e.eventType = .accessed → e.objectId = id →
        v.missCount = u.missCount) ∧
    (∀ r ∈ s.decisionLog, r.action = .spill ∨ r.action = .evict →
      r.victimPriority ≠ some .decodeCritical) ∧
    ∀ e u, sim.runEvent order s e = .ok u →
      ∃ new, u.decisionLog = s.decisionLog ++ new ∧
        ∀ r ∈ new, r.action = .spill ∨ r.action = .evict →
          r.victimPriority ≠ some .decodeCritical ∧ ∃ id b, r.victimObjectId = some id ∧
            u.liveBlocks.get? id = some b ∧ b.pinRequested = false := by
  have hs : s.Consistent := replay_consistent SimulatorState.consistent_initial h
  refine ⟨fun id events hin hnamed hpinned => ?_, replay_log_spares hp h,
    fun e u hstep => runEvent_log_spares hp hs hstep⟩
  have hresident : ∀ pre u, pre <+: events → sim.replay order s pre = .ok u → id ∈ u.hbmBlocks := by
    intro pre u hpre hu
    refine replay_keeps_pinned hp hs (fun e he => hnamed e (hpre.subset he)) ?_ hin hu
    exact fun pre' v hpre' hv => hpinned pre' v (hpre'.trans hpre) hv
  refine ⟨hresident, fun pre e u v hpre hu hstep _ hid => ?_⟩
  have hu' := hresident pre u ((List.prefix_append pre [e]).trans hpre) hu
  exact runEvent_hit (replay_consistent hs hu) hstep (hid ▸ hu')

/-- A pinned block and two others pass through an HBM of twenty bytes. -/
def guardedTrace : List MemoryIntentEvent :=
  [sampleEvent 0 .allocated (pinnedIntent "a"),
    sampleEvent 1 .allocated (sampleIntent "b" {.hbm, .dram} .hbm),
    sampleEvent 2 .allocated (sampleIntent "c" {.hbm, .dram} .hbm)]

def guardedAccess : MemoryIntentEvent :=
  sampleEvent 3 .accessed (pinnedIntent "a")

/-- The pinned block of a run of the trace is pinned. -/
theorem guardedTrace_pinned {suffix : List MemoryIntentEvent}
    (hsuffix : suffix = [] ∨ suffix = [guardedAccess])
    (h : (pressured IntentAwarePolicy).replay SetOrder.fastestFirst SimulatorState.initial
      (guardedTrace ++ suffix) = .ok s) : s.Pinned "a" := by
  have hcheck : ∃ u, (pressured IntentAwarePolicy).replay SetOrder.fastestFirst SimulatorState.initial
      (guardedTrace ++ suffix) = .ok u ∧ (u.liveBlocks.get? "a").any (·.pinRequested) = true := by
    refine Replay.exists_of_check
      (p := fun u : SimulatorState => (u.liveBlocks.get? "a").any (·.pinRequested)) ?_
    rcases hsuffix with rfl | rfl
    · decide +kernel
    · decide +kernel
  obtain ⟨u, hu, hpin⟩ := hcheck
  obtain rfl : u = s := Except.ok.inj (hu.symm.trans h)
  exact (Option.any_eq_true _ _).mp hpin

theorem pinned_blocks_protected_guarded :
    ∃ s, (pressured IntentAwarePolicy).replay SetOrder.fastestFirst SimulatorState.initial guardedTrace =
        .ok s ∧ s.spillCount = 1 ∧
      (∀ pre u, pre <+: [guardedAccess] →
        (pressured IntentAwarePolicy).replay SetOrder.fastestFirst s pre = .ok u → "a" ∈ u.hbmBlocks) ∧
      ∀ r ∈ s.decisionLog, r.action = .spill ∨ r.action = .evict →
        r.victimPriority ≠ some .decodeCritical := by
  obtain ⟨s, h, hcheck⟩ := Replay.exists_of_check
    (x := (pressured IntentAwarePolicy).replay SetOrder.fastestFirst SimulatorState.initial guardedTrace)
    (p := fun s => decide (s.spillCount = 1 ∧ "a" ∈ s.hbmBlocks)) (by decide +kernel)
  obtain ⟨hspills, hin⟩ := of_decide_eq_true hcheck
  obtain ⟨hstays, hlog, -⟩ := pinned_blocks_protected PlacementPolicy.intentAware_intent h
  refine ⟨s, h, hspills, (hstays "a" [guardedAccess] hin ?_ ?_).1, hlog⟩
  · intro e he hremoves
    rw [List.mem_singleton.mp he] at hremoves
    exact absurd hremoves (by unfold Removes; decide)
  · intro pre u hpre hu
    apply guardedTrace_pinned _ (Replay.run_append_ok.mpr ⟨s, h, hu⟩)
    rcases List.prefix_cons_iff.mp hpre with rfl | ⟨rest, rfl, hrest⟩
    · exact .inl rfl
    · exact .inr (by rw [List.prefix_nil.mp hrest])

end KVMemorySimulator

end KVMemoryIntent
