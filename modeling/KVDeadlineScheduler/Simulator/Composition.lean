-- SUMMARY: Replaying a trace in two runs of one simulator: the same state, and the same result but for three fields.
import KVDeadlineScheduler.Simulator.HbmBound
import KVDeadlineScheduler.Simulator.Validation

/-!
# Runs in sequence

A simulator keeps its state between runs, so a second run goes on where the first
one stopped. Most of the result is read off the state. The number of blocks, the
number of steps and the miss rate are computed from the events of the last run.
-/

namespace KVMemoryIntent

namespace SimulationResult

/-- The distinct objects that the events name. -/
def blocksOf (events : List MemoryIntentEvent) : ℕ :=
  (events.map MemoryIntentEvent.objectId).toFinset.card

/-- The result with the fields that depend on the argument of `run` computed from
`events`. -/
def reportedFor (r : SimulationResult) (events : List MemoryIntentEvent) : SimulationResult :=
  { r with
    totalBlocks := blocksOf events
    totalSteps := (events.map MemoryIntentEvent.step).foldl max (-1) + 1
    decodeCriticalMissRate := min ((r.decodeCriticalMisses : ℚ) / max (blocksOf events) 1) 1 }

end SimulationResult

namespace KVMemorySimulator

variable {sim : KVMemorySimulator} {order : SetOrder} {s : SimulatorState}

/-- The events matter to the result in three fields. -/
theorem report_reportedFor (sim : KVMemorySimulator) (s : SimulatorState)
    (events events' : List MemoryIntentEvent) :
    sim.report s events' = (sim.report s events).reportedFor events' := rfl

theorem replay_append (sim : KVMemorySimulator) (order : SetOrder) (s : SimulatorState)
    (xs ys : List MemoryIntentEvent) :
    sim.replay order s (xs ++ ys) = sim.replay order s xs >>= fun t => sim.replay order t ys :=
  List.foldlM_append

/-- Two runs of one simulator raise when the run of both traces does, with the same
error. Otherwise they leave the same state, and the second result differs from that
of the one run in the fields that are computed from the second trace alone. -/
theorem run_after_run (sim : KVMemorySimulator) (order : SetOrder) (s : SimulatorState)
    (xs ys : List MemoryIntentEvent) :
    (do
      let (t, _) ← sim.run order s xs
      sim.run order t ys) =
      (sim.run order s (xs ++ ys)).map fun (t, result) => (t, result.reportedFor ys) := by
  unfold run
  rw [replay_append]
  cases hxs : sim.replay order s xs with
  | error failure => rfl
  | ok t =>
    cases hys : sim.replay order t ys with
    | error failure => simp [result_eq, hys, bind, Except.bind, Except.map, pure, Except.pure]
    | ok u =>
      have hsecond := report_reportedFor sim u (xs ++ ys) ys
      simp [result_eq, hys, hsecond, bind, Except.bind, Except.map, pure, Except.pure]

/-- Two runs that name one block each. -/
theorem second_run_counts_its_own_blocks :
    ¬∀ (sim : KVMemorySimulator) (order : SetOrder) (xs ys : List MemoryIntentEvent),
      (do
        let (t, _) ← sim.run order .initial xs
        sim.run order t ys) = sim.run order .initial (xs ++ ys) := by
  intro hall
  have hequal := hall (pressured LRUPolicy) .fastestFirst
    [sampleEvent 0 .allocated (sampleIntent "a" {.hbm, .dram} .hbm)]
    [sampleEvent 1 .allocated (sampleIntent "b" {.hbm, .dram} .hbm)]
  have hblocks := congrArg (fun r => r.map fun p => p.2.totalBlocks) hequal
  revert hblocks
  decide +kernel

end KVMemorySimulator

end KVMemoryIntent
