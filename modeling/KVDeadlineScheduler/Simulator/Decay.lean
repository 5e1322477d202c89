-- SUMMARY: How often a run decays the recency scores: once for each maximal block of events of one step.
import KVDeadlineScheduler.Library.Contiguous
import KVDeadlineScheduler.Simulator.HbmBound

/-!
# Decay passes

A pass is skipped when the step of the event is the one that decayed last. Only the
last step is remembered, so a step whose events are interleaved with those of
another step decays again each time it comes back.
-/

namespace KVMemoryIntent

namespace KVMemorySimulator

variable {sim : KVMemorySimulator} {order : SetOrder} {s s' t : SimulatorState}
  {e : MemoryIntentEvent} {latency : ℤ} {C : SimulatorState → MemoryIntent → Prop}

/-! ## The guard of the decay pass -/

/-- The body of the loop in `run` up to the decay. -/
def beforeDecay (sim : KVMemorySimulator) (order : SetOrder) (s : SimulatorState)
    (event : MemoryIntentEvent) : Except Failure (SimulatorState × ℤ) := do
  let intent ← event.intent.copyWith
  let existing := s.liveBlocks.get? intent.objectId
  let intent ← mergeIncoming event intent existing
  sim.dispatch order s event existing intent

theorem runEvent_eq : sim.runEvent order s e = (do
    let (t, latency) ← beforeDecay sim order s e
    let u ← decayRecency t e.step
    pure { u with latencies := u.latencies ++ [sim.baseStepLatencyUs + latency] }) := by
  unfold runEvent beforeDecay
  simp only [bind_assoc]

/-- The event reaches the decay in a state whose last step is another one. -/
def decays (sim : KVMemorySimulator) (order : SetOrder) (s : SimulatorState) (e : MemoryIntentEvent) :
    Bool :=
  match beforeDecay sim order s e with
  | .ok (t, _) => decide (e.step ≠ t.lastDecayStep)
  | .error _ => false

/-- The passes of a run on a fresh simulator. -/
def decayPasses (sim : KVMemorySimulator) (order : SetOrder) (events : List MemoryIntentEvent) : ℕ :=
  Replay.tally (sim.runEvent order) (decays sim order) .initial events

/-! ## Which events decay -/

theorem Dispatched.lastDecayStep (h : Dispatched sim order C s e t latency) (hs : s.Consistent) :
    t.lastDecayStep = s.lastDecayStep := by
  cases h with
  | allocatedHbm _ _ hrun => exact (hrun.frame (stored_allocatedInHbm.consistent hs)).lastDecayStep
  | miss _ _ _ hrun => exact (hrun.frame ((stored_missedInHbm hs).consistent hs)).lastDecayStep
  | prefetched _ hrun => exact (hrun.frame (stored_prefetchedInHbm.consistent hs)).lastDecayStep
  | _ => rfl

theorem decays_eq (hs : s.Consistent) (h : sim.runEvent order s e = .ok s') :
    decays sim order s e = decide (e.step ≠ s.lastDecayStep) := by
  rw [runEvent_eq] at h
  obtain ⟨⟨t, latency⟩, hbefore, -⟩ := Replay.bind_eq_ok.mp h
  have hlast : t.lastDecayStep = s.lastDecayStep := by
    obtain ⟨incoming, hcopy, h⟩ := Replay.bind_eq_ok.mp hbefore
    rw [MemoryIntent.copyWith, e.intent_valid.postInit] at hcopy
    cases hcopy
    obtain ⟨intent, hmerge, hdispatch⟩ := Replay.bind_eq_ok.mp h
    exact (dispatch_ok hs victimsMeet_true hmerge hdispatch).lastDecayStep hs
  unfold decays
  rw [hbefore, ← hlast]

/-! ## Runs -/

/-- A run decays once for each block of steps, not counting one that goes on from
the step that decayed last. -/
theorem tally_decays {events : List MemoryIntentEvent} (hs : s.Consistent)
    (h : sim.replay order s events = .ok s') :
    Replay.tally (sim.runEvent order) (decays sim order) s events + 1 =
      ((events.map MemoryIntentEvent.step).destutter' (· ≠ ·) s.lastDecayStep).length := by
  induction events generalizing s with
  | nil => rfl
  | cons e events ih =>
    obtain ⟨t, hstep, hrest⟩ := Replay.run_cons_ok.mp h
    obtain ⟨u, latency, -, -, hsettled⟩ := runEvent_ok hs victimsMeet_true hstep
    have hlast : t.lastDecayStep = e.step := by rw [hsettled.eq]
    have hpasses := ih (runEvent_consistent hs hstep) hrest
    rw [hlast] at hpasses
    simp only [Replay.tally, hstep, decays_eq hs hstep, List.map_cons]
    by_cases hsame : s.lastDecayStep = e.step
    · rw [List.destutter'_cons_neg _ (by simpa using hsame), hsame, ← hpasses]
      simp
    · rw [List.destutter'_cons_pos _ hsame, List.length_cons, ← hpasses]
      simp [Ne.symm hsame, add_comm]

theorem decayPasses_eq {events : List MemoryIntentEvent}
    (h : sim.replay order .initial events = .ok s) :
    decayPasses sim order events = ((events.map MemoryIntentEvent.step).destutter (· ≠ ·)).length := by
  have hpasses := tally_decays SimulatorState.consistent_initial h
  cases events with
  | nil => rfl
  | cons e events =>
    -- no step is the one a fresh simulator starts from
    have hfresh : SimulatorState.initial.lastDecayStep ≠ e.step := by
      have := e.step_nonneg
      show (-1 : ℤ) ≠ e.step
      omega
    rw [List.map_cons, List.destutter'_cons_pos _ hfresh, List.length_cons] at hpasses
    exact Nat.succ.inj hpasses

/-- A run on a fresh simulator decays as often as its trace has distinct steps if and
only if the events of each step follow each other. -/
theorem decay_per_step_iff {events : List MemoryIntentEvent}
    (h : sim.replay order .initial events = .ok s) :
    decayPasses sim order events = (events.map MemoryIntentEvent.step).toFinset.card ↔
      Contiguous (events.map MemoryIntentEvent.step) := by
  rw [decayPasses_eq h]
  exact Contiguous.length_destutter_eq_iff

/-- Two events of one step and one of the next. -/
def adjacentTrace : List MemoryIntentEvent :=
  [sampleEvent 0 .allocated (sampleIntent "a" {.hbm, .dram} .hbm),
    sampleEvent 0 .accessed (sampleIntent "a" {.hbm, .dram} .hbm),
    sampleEvent 1 .accessed (sampleIntent "a" {.hbm, .dram} .hbm)]

theorem decay_per_step_iff_adjacent :
    ∃ s, (pressured LRUPolicy).replay .fastestFirst .initial adjacentTrace = .ok s ∧
      decayPasses (pressured LRUPolicy) .fastestFirst adjacentTrace = 2 := by
  obtain ⟨s, h, -⟩ := Replay.exists_of_check
    (x := (pressured LRUPolicy).replay .fastestFirst .initial adjacentTrace) (p := fun _ => true)
    (by decide +kernel)
  have hsteps : Contiguous (adjacentTrace.map MemoryIntentEvent.step) :=
    Contiguous.nodup_destutter'_iff.mp (by decide +kernel)
  exact ⟨s, h, (decay_per_step_iff h).mpr hsteps⟩

/-- The end of a request with two blocks: each is marked cold at one step and freed
at the next. -/
def finishedTrace : List MemoryIntentEvent :=
  [sampleEvent 0 .allocated (sampleIntent "a" {.hbm, .dram} .hbm),
    sampleEvent 0 .allocated (sampleIntent "b" {.hbm, .dram} .hbm),
    sampleEvent 1 .markedCold (sampleIntent "a" {.hbm, .dram} .hbm),
    sampleEvent 2 .freed (sampleIntent "a" {.hbm, .dram} .hbm),
    sampleEvent 1 .markedCold (sampleIntent "b" {.hbm, .dram} .hbm),
    sampleEvent 2 .freed (sampleIntent "b" {.hbm, .dram} .hbm)]

theorem interleaved_steps_decay_again :
    ¬∀ (sim : KVMemorySimulator) (order : SetOrder) (events : List MemoryIntentEvent) (s : SimulatorState),
      sim.replay order .initial events = .ok s →
      decayPasses sim order events = (events.map MemoryIntentEvent.step).toFinset.card := by
  intro hall
  obtain ⟨s, h, -⟩ := Replay.exists_of_check
    (x := (pressured LRUPolicy).replay .fastestFirst .initial finishedTrace) (p := fun _ => true)
    (by decide +kernel)
  have hpasses : decayPasses (pressured LRUPolicy) .fastestFirst finishedTrace = 5 := by decide +kernel
  have hsteps : (finishedTrace.map MemoryIntentEvent.step).toFinset.card = 3 := by decide +kernel
  have hequal := hall _ _ _ _ h
  rw [hpasses, hsteps] at hequal
  cases hequal

end KVMemorySimulator

end KVMemoryIntent
