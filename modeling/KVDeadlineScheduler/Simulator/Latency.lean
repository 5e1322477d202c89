-- SUMMARY: Latency accounting: every charge of a run is the price of exactly one counted miss, spill or prefetch.
import KVDeadlineScheduler.Simulator.Effects

/-!
# Latency accounting

`charged` prices the counters of a state. Each pass of the capacity loop and
each rule of `Dispatched` raises it by the latency it returns, so the recorded
latencies of a run sum up to the base steps and the price of the counters.
-/

namespace KVMemoryIntent

namespace KVMemorySimulator

variable {sim : KVMemorySimulator} {order : SetOrder} {s s' t : SimulatorState}
  {e : MemoryIntentEvent} {latency : ℤ}

/-- What the counted misses, spills and prefetches of a state cost. -/
def charged (sim : KVMemorySimulator) (s : SimulatorState) : ℤ :=
  sim.missPenaltyUs * s.missCount + sim.spillLatencyUs * s.spillCount
    + sim.prefetchLatencyUs * s.prefetchCount

/-- Counting more misses, spills and prefetches costs their price. -/
theorem charged_add (sim : KVMemorySimulator) {m n p : ℕ} (hmiss : t.missCount = s.missCount + m)
    (hspill : t.spillCount = s.spillCount + n) (hprefetch : t.prefetchCount = s.prefetchCount + p) :
    sim.charged t = sim.charged s +
      (sim.missPenaltyUs * m + sim.spillLatencyUs * n + sim.prefetchLatencyUs * p) := by
  unfold charged
  rw [hmiss, hspill, hprefetch]
  push_cast
  ring

/-! ## The capacity loop -/

theorem displaceVictim_charged {victim : MemoryIntent} {currentStep : ℤ} (hs : s.Consistent)
    (hv : victim ∈ order.candidates s) :
    sim.charged (sim.displaceVictim order s victim currentStep).1 =
      sim.charged s + (sim.displaceVictim order s victim currentStep).2 := by
  have hframe := displaceVictim_frame sim currentStep hs hv
  -- the displacement counts a spill exactly when it charges one
  rw [charged_add sim (m := 0) (p := 0) hframe.missCount displaceVictim_spillCount hframe.prefetchCount,
    displaceVictim_latency]
  split <;> simp

/-- The latency the loop returns is the price of the spills it counts. -/
theorem CapacityRun.charged {C : SimulatorState → MemoryIntent → Prop} {currentStep : ℤ}
    (h : CapacityRun sim order currentStep C s latency s') (hs : s.Consistent) :
    sim.charged s' = sim.charged s + latency := by
  induction h with
  | fits => exact (add_zero _).symm
  | allPinned => exact (add_zero _).symm
  | noVictim => exact (add_zero _).symm
  | displace hcheck _ _ ih =>
    have hmem := victim_mem_candidates hcheck
    rw [ih ((displaceVictim_frame sim currentStep hs hmem).consistent hs), displaceVictim_charged hs hmem,
      add_assoc]

/-! ## Events and runs -/

theorem charged_missedInHbm : sim.charged (missedInHbm s e) = sim.charged s + sim.missPenaltyUs := by
  have hadd := charged_add sim (t := missedInHbm s e) (s := s) (m := 1) (n := 0) (p := 0) rfl rfl rfl
  simpa using hadd

theorem charged_prefetchedInHbm :
    sim.charged (prefetchedInHbm s e) = sim.charged s + sim.prefetchLatencyUs := by
  have hadd := charged_add sim (t := prefetchedInHbm s e) (s := s) (m := 0) (n := 0) (p := 1) rfl rfl rfl
  simpa using hadd

theorem charged_storeSpilled {block : MemoryIntent} :
    sim.charged (storeSpilled s block) = sim.charged s + sim.spillLatencyUs := by
  have hadd := charged_add sim (t := storeSpilled s block) (s := s) (m := 0) (n := 1) (p := 0) rfl rfl rfl
  simpa using hadd

/-- The latency an event charges is the price of what it counts. -/
theorem Dispatched.charged {C : SimulatorState → MemoryIntent → Prop}
    (h : Dispatched sim order C s e t latency) (hs : s.Consistent) :
    sim.charged t = sim.charged s + latency := by
  cases h with
  | allocatedHbm _ _ hrun => exact hrun.charged (stored_allocatedInHbm.consistent hs)
  | allocatedDram => exact (add_zero _).symm
  | allocatedOther => exact (add_zero _).symm
  | hit => exact (add_zero _).symm
  | miss _ _ _ hrun =>
    have hloop := hrun.charged ((stored_missedInHbm hs).consistent hs)
    rw [charged_missedInHbm, add_assoc] at hloop
    exact hloop
  | markedUnknown => exact (add_zero _).symm
  | annotated => exact (add_zero _).symm
  | spilled => exact charged_storeSpilled
  | prefetchDeclined => exact (add_zero _).symm
  | prefetched _ hrun =>
    have hloop := hrun.charged (stored_prefetchedInHbm.consistent hs)
    rw [charged_prefetchedInHbm, add_assoc] at hloop
    exact hloop
  | evicted => exact (add_zero _).symm
  | freed => exact (add_zero _).symm
  | unchanged => exact (add_zero _).symm

/-- The latencies recorded so far are the base steps and the charges. -/
def Accounted (sim : KVMemorySimulator) (s : SimulatorState) : Prop :=
  s.latencies.sum = sim.baseStepLatencyUs * s.latencies.length + sim.charged s

theorem runEvent_accounted (hs : s.Consistent) (hacc : Accounted sim s)
    (h : sim.runEvent order s e = .ok s') : Accounted sim s' := by
  obtain ⟨t, latency, hd, -, hsettled⟩ := runEvent_ok hs victimsMeet_true h
  have hlatencies : t.latencies = s.latencies := hd.latencies hs
  have hcharged : sim.charged s' = sim.charged s + latency := by
    rw [hsettled.eq]
    exact hd.charged hs
  unfold Accounted at hacc ⊢
  rw [hcharged, hsettled.eq]
  simp only [hlatencies, List.sum_append, List.length_append, List.sum_singleton, List.length_singleton, hacc]
  push_cast
  ring

theorem replay_accounted {events : List MemoryIntentEvent}
    (h : sim.replay order SimulatorState.initial events = .ok s') : Accounted sim s' := by
  have hinitial : Accounted sim SimulatorState.initial := by
    simp [Accounted, KVMemorySimulator.charged, SimulatorState.initial]
  refine (Replay.run_always (P := fun s => s.Consistent ∧ Accounted sim s) ?_
    ⟨SimulatorState.consistent_initial, hinitial⟩ h).2
  rintro s e t ⟨hs, hacc⟩ hstep
  exact ⟨runEvent_consistent hs hstep, runEvent_accounted hs hacc hstep⟩

/-- A replay records one latency for each event. -/
theorem replay_latencies_length {events : List MemoryIntentEvent} (hs : s.Consistent)
    (h : sim.replay order s events = .ok s') :
    s'.latencies.length = s.latencies.length + events.length := by
  induction events generalizing s with
  | nil =>
    cases h
    rfl
  | cons e events ih =>
    obtain ⟨u, hstep, hrest⟩ := Replay.run_cons_ok.mp h
    obtain ⟨t, latency, hd, -, hsettled⟩ := runEvent_ok hs victimsMeet_true hstep
    have hu : u.latencies.length = s.latencies.length + 1 := by
      rw [hsettled.eq]
      simp [hd.latencies hs]
    rw [ih (runEvent_consistent hs hstep) hrest, hu, List.length_cons]
    omega

/-- The total latency of a run on a fresh simulator is the base latency of its
events plus the price of its misses, spills and prefetches. -/
theorem total_latency_accounted {events : List MemoryIntentEvent} {result : SimulationResult}
    (h : sim.run order SimulatorState.initial events = .ok (s', result)) :
    result.totalLatencyUs =
      sim.baseStepLatencyUs * events.length + sim.missPenaltyUs * result.missCount
        + sim.spillLatencyUs * result.spillCount + sim.prefetchLatencyUs * result.prefetchCount := by
  obtain ⟨hreplay, rfl⟩ := run_ok h
  have hlength := replay_latencies_length SimulatorState.consistent_initial hreplay
  have hacc : Accounted sim s' := replay_accounted hreplay
  simp only [SimulatorState.initial, List.length_nil, zero_add] at hlength
  unfold Accounted KVMemorySimulator.charged at hacc
  dsimp only [report]
  rw [hacc, hlength]
  ring

/-- Two blocks take turns in HBM. -/
def turnsTrace : List MemoryIntentEvent :=
  [sampleEvent 0 .allocated (sampleIntent "a" {.hbm, .dram} .hbm),
    sampleEvent 1 .allocated (sampleIntent "b" {.hbm, .dram} .hbm),
    sampleEvent 2 .accessed (sampleIntent "a" {.hbm, .dram} .hbm)]

/-- HBM has room for one sample block. -/
def oneBlockHbm : KVMemorySimulator where
  policy := LRUPolicy
  hbmCapacityBytes := 10
  dramCapacityBytes := 20

/-- One miss and two spills. -/
theorem total_latency_accounted_sample :
    ∃ s' result,
      oneBlockHbm.run SetOrder.fastestFirst SimulatorState.initial turnsTrace = .ok (s', result) ∧
      result.totalLatencyUs = 50 * 3 + 5000 * result.missCount + 200 * result.spillCount
        + 100 * result.prefetchCount ∧
      result.missCount = 1 ∧ result.spillCount = 2 := by
  obtain ⟨⟨s', result⟩, h, hcheck⟩ := Replay.exists_of_check
    (x := oneBlockHbm.run SetOrder.fastestFirst SimulatorState.initial turnsTrace)
    (p := fun r => decide (r.2.missCount = 1 ∧ r.2.spillCount = 2)) (by decide +kernel)
  exact ⟨s', result, h, total_latency_accounted h, of_decide_eq_true hcheck⟩

end KVMemorySimulator

end KVMemoryIntent
