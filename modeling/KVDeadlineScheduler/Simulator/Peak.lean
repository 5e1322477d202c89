-- SUMMARY: The stores after every event: their keys, the blocks they hold, and the recorded peak as the greatest usage at an event boundary.
import Mathlib.Order.Bounds.Basic
import KVDeadlineScheduler.Simulator.HbmBound

/-!
# Stores and peak usage

`_record_usage` is called on some paths only. The other paths bring nothing into
HBM, so the peak is the greatest usage over the boundaries between events, and no
usage in the middle of an event is recorded.
-/

namespace KVMemoryIntent

namespace KVMemorySimulator

variable {sim : KVMemorySimulator} {order : SetOrder} {s s' : SimulatorState} {e : MemoryIntentEvent}

/-- An event moves the peak to the usage it leaves, if that is higher. -/
theorem runEvent_actualPeak (hs : s.Consistent) (hpeak : s.hbmUsed ≤ s.actualPeakHbmUsedBytes)
    (h : sim.runEvent order s e = .ok s') :
    s'.actualPeakHbmUsedBytes = max s'.hbmUsed s.actualPeakHbmUsedBytes := by
  obtain ⟨t, latency, hd, ht, hsettled⟩ := runEvent_ok hs victimsMeet_true h
  have hsame : s'.actualPeakHbmUsedBytes = t.actualPeakHbmUsedBytes := by rw [hsettled.eq]
  rw [hsame, hsettled.hbmUsed_eq]
  rcases hd.recorded_or_kept hs with hrecorded | ⟨hunrecorded, hkept⟩
  · rw [hrecorded, max_comm]
  · have hle := hkept.hbmUsed_le (fun _ _ hk => hk.1) hs ht
    rw [hunrecorded, max_eq_right (hle.trans hpeak)]

/-- The usages of HBM before, between and after the events of a trace. -/
def boundaryUsages (sim : KVMemorySimulator) (order : SetOrder) (events : List MemoryIntentEvent) :
    Set ℤ :=
  {used | ∃ pre s, pre <+: events ∧ sim.replay order SimulatorState.initial pre = .ok s ∧
    s.hbmUsed = used}

theorem boundaryUsages_nil : boundaryUsages sim order [] = {0} := by
  ext used
  simp only [boundaryUsages, List.prefix_nil, Set.mem_ofPred_eq, Set.mem_singleton_iff]
  constructor
  · rintro ⟨pre, s, rfl, h, rfl⟩
    cases h
    rfl
  · rintro rfl
    exact ⟨[], SimulatorState.initial, rfl, rfl, rfl⟩

theorem boundaryUsages_append {events : List MemoryIntentEvent}
    (h : sim.replay order SimulatorState.initial (events ++ [e]) = .ok s) :
    boundaryUsages sim order (events ++ [e]) = insert s.hbmUsed (boundaryUsages sim order events) := by
  ext used
  simp only [boundaryUsages, List.prefix_concat_iff, Set.mem_ofPred_eq, Set.mem_insert_iff]
  constructor
  · rintro ⟨pre, t, rfl | hpre, ht, rfl⟩
    · rw [h] at ht
      cases ht
      exact .inl rfl
    · exact .inr ⟨pre, t, hpre, ht, rfl⟩
  · rintro (rfl | ⟨pre, t, hpre, ht, rfl⟩)
    · exact ⟨events ++ [e], s, .inl rfl, h, rfl⟩
    · exact ⟨pre, t, .inr hpre, ht, rfl⟩

theorem actualPeak_isGreatest {events : List MemoryIntentEvent}
    (h : sim.replay order SimulatorState.initial events = .ok s) :
    IsGreatest (boundaryUsages sim order events) s.actualPeakHbmUsedBytes := by
  induction events using List.reverseRecOn generalizing s with
  | nil =>
    cases h
    rw [boundaryUsages_nil]
    exact isGreatest_singleton
  | append_singleton events e ih =>
    obtain ⟨t, hpre, hlast⟩ := Replay.run_append_ok.mp h
    obtain ⟨s', hstep, hnil⟩ := Replay.run_cons_ok.mp hlast
    cases hnil
    have hgreatest := ih hpre
    -- the last boundary of the part replayed so far
    have hused : t.hbmUsed ≤ t.actualPeakHbmUsedBytes :=
      hgreatest.2 ⟨events, t, List.prefix_refl _, hpre, rfl⟩
    have ht := replay_consistent SimulatorState.consistent_initial hpre
    rw [boundaryUsages_append h, runEvent_actualPeak ht hused hstep]
    exact hgreatest.insert _

/-- After every part of a trace that raises no exception, the residency sets name
live blocks, the live blocks are stored under their ids and sound, and the peak
is the greatest usage at an event boundary so far. -/
theorem stores_consistent {events : List MemoryIntentEvent}
    (h : sim.replay order SimulatorState.initial events = .ok s) :
    (∀ id ∈ s.hbmBlocks, ∃ b, s.liveBlocks.get? id = some b) ∧
      (∀ id ∈ s.dramBlocks, ∃ b, s.liveBlocks.get? id = some b) ∧
      (∀ id b, s.liveBlocks.get? id = some b →
        b.objectId = id ∧ 0 < b.sizeBytes ∧ (0 ≤ b.recencyScore ∧ b.recencyScore ≤ 1) ∧
          (b.priority = .decodeCritical → b.pinRequested = true)) ∧
      IsGreatest
        {used | ∃ pre t, pre <+: events ∧ sim.replay order SimulatorState.initial pre = .ok t ∧
          t.hbmUsed = used}
        s.actualPeakHbmUsedBytes := by
  have hs : s.Consistent := replay_consistent SimulatorState.consistent_initial h
  refine ⟨hs.hbm_live, hs.dram_live, fun id b hget => ?_, actualPeak_isGreatest h⟩
  have hsound := hs.sound id b hget
  exact ⟨hs.objectId_eq id b hget, hsound.sizeBytes_pos, hsound.recencyScore_range, hsound.pinned⟩

theorem stores_consistent_pressure :
    ∃ s, (pressured LRUPolicy).replay SetOrder.fastestFirst SimulatorState.initial pressureTrace =
        .ok s ∧
      IsGreatest
        {used | ∃ pre t, pre <+: pressureTrace ∧
          (pressured LRUPolicy).replay SetOrder.fastestFirst SimulatorState.initial pre = .ok t ∧
          t.hbmUsed = used}
        s.actualPeakHbmUsedBytes ∧
      s.actualPeakHbmUsedBytes = 20 := by
  obtain ⟨s, h, hcheck⟩ := Replay.exists_of_check
    (x := (pressured LRUPolicy).replay SetOrder.fastestFirst SimulatorState.initial pressureTrace)
    (p := fun s => decide (s.actualPeakHbmUsedBytes = 20)) (by decide +kernel)
  exact ⟨s, h, (stores_consistent h).2.2.2, of_decide_eq_true hcheck⟩

end KVMemorySimulator

end KVMemoryIntent
