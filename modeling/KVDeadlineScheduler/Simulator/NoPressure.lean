-- SUMMARY: Where HBM has room the policy does not matter: a run that logs nothing goes the same under every simulator with as much HBM.
import KVDeadlineScheduler.Simulator.Frame

/-!
# Runs without pressure

Policy, set order and DRAM capacity are read where a block is displaced or
prefetched, and both leave a record in the log. A run that leaves none took the
first exit of every capacity loop, which another simulator takes as well.
-/

namespace KVMemoryIntent

/-- How many decisions and exhausted capacities a simulator has recorded. -/
def SimulatorState.traces (s : SimulatorState) : ℕ :=
  s.decisionLog.length + s.capacityExhaustionEvents

namespace KVMemorySimulator

variable {sim sim' : KVMemorySimulator} {order order' : SetOrder} {s t u : SimulatorState}
  {e : MemoryIntentEvent} {block intent : MemoryIntent} {existing : Option MemoryIntent}
  {step latency : ℤ}

/-- On the way from `s` to `t` a trace was left, or none and `same` holds. -/
inductive Traced (s t : SimulatorState) (same : Prop) : Prop where
  | left (h : s.traces < t.traces)
  | none (h : t.traces = s.traces) (hsame : same)

namespace Traced

variable {P Q : Prop}

theorem le (h : Traced s t P) : s.traces ≤ t.traces := by
  cases h with
  | left h => exact h.le
  | none h => exact h.ge

theorem same (h : Traced s t P) (heq : t.traces = s.traces) : P := by
  cases h with
  | left hlt => exact absurd heq hlt.ne'
  | none _ hsame => exact hsame

/-- Bookkeeping before and after leaves no trace. -/
theorem map {s₁ t₁ : SimulatorState} (h : Traced s₁ t₁ P) (hentry : s₁.traces = s.traces)
    (hexit : t.traces = t₁.traces) (hPQ : P → Q) : Traced s t Q := by
  cases h with
  | left h => exact .left (hentry.symm.trans_lt (h.trans_eq hexit.symm))
  | none h hsame => exact .none (hexit.trans (h.trans hentry)) (hPQ hsame)

theorem trans (h : Traced s t P) (h' : Traced t u Q) : Traced s u (P ∧ Q) := by
  cases h with
  | left h => exact .left (h.trans_le h'.le)
  | none h hsame =>
    cases h' with
    | left h' => exact .left (h.symm.trans_lt h')
    | none h' hsame' => exact .none (h'.trans h) ⟨hsame, hsame'⟩

end Traced

/-- `sim'` has at least the HBM of `sim` and its latencies, and prefetches no block that
`sim` does not prefetch. -/
structure Roomier (sim sim' : KVMemorySimulator) : Prop where
  hbm : sim.hbmCapacityBytes ≤ sim'.hbmCapacityBytes
  missPenalty : sim'.missPenaltyUs = sim.missPenaltyUs
  spillLatency : sim'.spillLatencyUs = sim.spillLatencyUs
  baseStepLatency : sim'.baseStepLatencyUs = sim.baseStepLatencyUs
  prefetches : ∀ block step, sim'.policy.shouldPrefetch block step = true →
    sim.policy.shouldPrefetch block step = true

/-! ## The capacity loop -/

/-- A loop that leaves no trace was entered within the capacity. -/
theorem CapacityRun.traced {C : SimulatorState → MemoryIntent → Prop}
    (h : CapacityRun sim order step C s latency t) :
    Traced s t (s.hbmUsed ≤ sim.hbmCapacityBytes ∧ latency = 0 ∧ t = s) := by
  induction h with
  | fits hcheck => exact .none rfl ⟨checkCapacity_fits hcheck, rfl, rfl⟩
  | allPinned =>
    refine .left ?_
    simp only [SimulatorState.traces, recordPinnedExhaustion, List.length_append, List.length_singleton]
    omega
  | noVictim => exact .left (Nat.lt_succ_self _)
  | @displace s t victim _ _ _ _ ih =>
    obtain ⟨r, hlog, -⟩ : ∃ r, (sim.displaceVictim order s victim step).1.decisionLog =
        s.decisionLog ++ [r] ∧ ReportsDisplaced victim.objectId r := displaceVictim_reports
    have hlogged : s.traces < (sim.displaceVictim order s victim step).1.traces := by
      simp only [SimulatorState.traces, hlog, displaceVictim_exhaustion, List.length_append,
        List.length_singleton]
      omega
    exact .left (hlogged.trans_le ih.le)

theorem ensureHbmCapacity_traced (hroom : Roomier sim sim')
    (h : sim.ensureHbmCapacity order s step = .ok (t, latency)) :
    Traced s t (sim'.ensureHbmCapacity order' s step = .ok (t, latency)) := by
  obtain ⟨u, hrun, rfl⟩ := capacityRun_of_ensure (eachVictim_true _ _) h
  refine hrun.traced.map rfl rfl ?_
  rintro ⟨hused, rfl, rfl⟩
  have hfits : sim'.checkCapacity order' u step = .fits := checkCapacity_of_le (hused.trans hroom.hbm)
  simp only [ensureHbmCapacity, capacityFuel, ensureHbmCapacityLoop, hfits]
  rfl

theorem moveToHbm_traced (hroom : Roomier sim sim')
    (h : sim.moveToHbm order s block step = .ok (t, latency)) :
    Traced s t (sim'.moveToHbm order' s block step = .ok (t, latency)) := by
  obtain ⟨⟨u, l⟩, hensure, h⟩ := Replay.bind_eq_ok.mp h
  cases h
  exact (ensureHbmCapacity_traced hroom hensure).map rfl rfl fun hensure' =>
    Replay.bind_eq_ok.mpr ⟨(u, latency), hensure', rfl⟩

/-- A move leaves traces or none, whatever the other simulator does. -/
theorem moveToHbm_traces (h : sim.moveToHbm order s block step = .ok (t, latency)) : s.traces ≤ t.traces := by
  have hsame : Roomier sim sim := ⟨le_rfl, rfl, rfl, rfl, fun _ _ haccepted => haccepted⟩
  have hmoved : Traced s t (sim.moveToHbm order s block step = .ok (t, latency)) := moveToHbm_traced hsame h
  exact hmoved.le

/-! ## The branches that read the simulator -/

theorem runAllocated_traced (hroom : Roomier sim sim')
    (h : sim.runAllocated order s step intent = .ok (t, latency)) :
    Traced s t (sim'.runAllocated order' s step intent = .ok (t, latency)) := by
  unfold runAllocated at h ⊢
  cases htier : intent.currentTier with
  | hbm =>
    simp only [htier] at h ⊢
    obtain ⟨⟨u, l⟩, hensure, h⟩ := Replay.bind_eq_ok.mp h
    cases h
    exact (ensureHbmCapacity_traced hroom hensure).map rfl rfl fun hensure' =>
      Replay.bind_eq_ok.mpr ⟨(u, l), hensure', rfl⟩
  | dram =>
    simp only [htier] at h ⊢
    cases h
    exact .none rfl rfl
  | cxl =>
    simp only [htier] at h ⊢
    cases h
    exact .none rfl rfl
  | nvme =>
    simp only [htier] at h ⊢
    cases h
    exact .none rfl rfl

theorem runAccessed_traced (hroom : Roomier sim sim')
    (h : sim.runAccessed order s step intent = .ok (t, latency)) :
    Traced s t (sim'.runAccessed order' s step intent = .ok (t, latency)) := by
  obtain ⟨accessed, htouch, h⟩ := Replay.bind_eq_ok.mp h
  dsimp only at h
  split at h
  · rename_i hout
    obtain ⟨⟨u, l⟩, hmove, h⟩ := Replay.bind_eq_ok.mp h
    cases h
    have hmissed : Traced (recordMiss { s with liveBlocks := s.liveBlocks.set intent.objectId accessed } accessed)
        u (sim'.moveToHbm order'
          (recordMiss { s with liveBlocks := s.liveBlocks.set intent.objectId accessed } accessed) accessed
          step = .ok (u, l)) := moveToHbm_traced hroom hmove
    refine hmissed.map rfl rfl fun hmove' => Replay.bind_eq_ok.mpr ⟨accessed, htouch, ?_⟩
    dsimp only
    rw [if_pos hout, hroom.missPenalty]
    exact Replay.bind_eq_ok.mpr ⟨_, hmove', rfl⟩
  · rename_i hin
    cases h
    refine .none rfl (Replay.bind_eq_ok.mpr ⟨accessed, htouch, ?_⟩)
    dsimp only
    rw [if_neg hin]
    rfl

/-- A prefetch is in the log, or the policy declined it. -/
theorem runPrefetched_traced (hroom : Roomier sim sim')
    (h : sim.runPrefetched order s step existing intent = .ok (t, latency)) :
    Traced s t (sim'.runPrefetched order' s step existing intent = .ok (t, latency)) := by
  unfold runPrefetched at h ⊢
  cases existing with
  | none =>
    cases h
    exact .none rfl rfl
  | some stored =>
    simp only at h ⊢
    split at h
    · rename_i hout
      rw [if_pos hout]
      obtain ⟨merged, hmerge, h⟩ := Replay.bind_eq_ok.mp h
      split at h
      · obtain ⟨⟨u, l⟩, hmove, h⟩ := Replay.bind_eq_ok.mp h
        cases h
        have hmoved := moveToHbm_traces hmove
        refine .left (hmoved.trans_lt ?_)
        simp only [SimulatorState.traces, logDecision, List.length_append, List.length_singleton]
        omega
      · rename_i hdeclined
        cases h
        have hdeclined' : ¬sim'.policy.shouldPrefetch merged step = true :=
          fun haccepted => hdeclined (hroom.prefetches _ _ haccepted)
        refine .none rfl (Replay.bind_eq_ok.mpr ⟨merged, hmerge, ?_⟩)
        rw [if_neg hdeclined']
        rfl
    · rename_i hin
      cases h
      rw [if_neg hin]
      exact .none rfl rfl

/-! ## The branches that do not -/

theorem runSpilled_traced (hroom : Roomier sim sim')
    (h : sim.runSpilled s existing = .ok (t, latency)) :
    Traced s t (sim'.runSpilled s existing = .ok (t, latency)) := by
  unfold runSpilled at h ⊢
  rw [hroom.spillLatency]
  refine .none ?_ h
  cases existing with
  | none =>
    cases h
    rfl
  | some stored =>
    simp only at h
    split at h
    · obtain ⟨updated, -, h⟩ := Replay.bind_eq_ok.mp h
      cases h
      rfl
    · cases h
      rfl

theorem runMarkedDecodeCritical_traces
    (h : runMarkedDecodeCritical s existing intent = .ok (t, latency)) : t.traces = s.traces := by
  cases existing with
  | none =>
    obtain ⟨marked, -, h⟩ := Replay.bind_eq_ok.mp h
    cases h
    rfl
  | some stored =>
    obtain ⟨marked, -, h⟩ := Replay.bind_eq_ok.mp h
    cases h
    rfl

theorem runMarkedCold_traces (h : runMarkedCold s existing intent = .ok (t, latency)) :
    t.traces = s.traces := by
  cases existing with
  | none =>
    cases h
    rfl
  | some stored =>
    obtain ⟨marked, -, h⟩ := Replay.bind_eq_ok.mp h
    cases h
    rfl

theorem runCommitted_traces (h : runCommitted s existing intent = .ok (t, latency)) :
    t.traces = s.traces := by
  cases existing with
  | none =>
    cases h
    rfl
  | some stored =>
    obtain ⟨committed, -, h⟩ := Replay.bind_eq_ok.mp h
    cases h
    rfl

theorem runEvicted_traces (s : SimulatorState) (existing : Option MemoryIntent) :
    (runEvicted s existing).traces = s.traces := by
  cases existing with
  | none => rfl
  | some stored => rfl

theorem dispatch_traced (hroom : Roomier sim sim')
    (h : sim.dispatch order s e existing intent = .ok (t, latency)) :
    Traced s t (sim'.dispatch order' s e existing intent = .ok (t, latency)) := by
  unfold dispatch at h ⊢
  cases htype : e.eventType with
  | allocated =>
    simp only [htype] at h ⊢
    exact runAllocated_traced hroom h
  | accessed =>
    simp only [htype] at h ⊢
    exact runAccessed_traced hroom h
  | prefetched =>
    simp only [htype] at h ⊢
    exact runPrefetched_traced hroom h
  | spilled =>
    simp only [htype] at h ⊢
    exact runSpilled_traced hroom h
  | markedDecodeCritical =>
    simp only [htype] at h ⊢
    exact .none (runMarkedDecodeCritical_traces h) h
  | markedCold =>
    simp only [htype] at h ⊢
    exact .none (runMarkedCold_traces h) h
  | committed =>
    simp only [htype] at h ⊢
    exact .none (runCommitted_traces h) h
  | evicted =>
    simp only [htype] at h ⊢
    cases h
    exact .none (runEvicted_traces s existing) rfl
  | freed =>
    simp only [htype] at h ⊢
    cases h
    exact .none rfl rfl
  | miss =>
    simp only [htype] at h ⊢
    cases h
    exact .none rfl rfl

/-! ## Runs -/

theorem decayRecency_traces (h : decayRecency s step = .ok t) : t.traces = s.traces := by
  unfold decayRecency at h
  split at h
  · obtain ⟨live, -, h⟩ := Replay.bind_eq_ok.mp h
    cases h
    rfl
  · cases h
    rfl

/-- An event that leaves no trace goes the same under the other simulator. -/
theorem runEvent_traced (hroom : Roomier sim sim') (h : sim.runEvent order s e = .ok t) :
    Traced s t (sim'.runEvent order' s e = .ok t) := by
  obtain ⟨incoming, hcopy, h⟩ := Replay.bind_eq_ok.mp h
  obtain ⟨intent, hmerge, h⟩ := Replay.bind_eq_ok.mp h
  obtain ⟨⟨u, latency⟩, hdispatch, h⟩ := Replay.bind_eq_ok.mp h
  obtain ⟨v, hdecay, h⟩ := Replay.bind_eq_ok.mp h
  cases h
  have hdispatched : Traced s u (sim'.dispatch order' s e (s.liveBlocks.get? incoming.objectId) intent =
      .ok (u, latency)) := dispatch_traced hroom hdispatch
  have hdecayed : v.traces = u.traces := decayRecency_traces hdecay
  refine hdispatched.map rfl hdecayed fun hdispatch' => ?_
  refine Replay.bind_eq_ok.mpr ⟨incoming, hcopy, Replay.bind_eq_ok.mpr ⟨intent, hmerge, ?_⟩⟩
  refine Replay.bind_eq_ok.mpr ⟨_, hdispatch', Replay.bind_eq_ok.mpr ⟨v, hdecay, ?_⟩⟩
  rw [hroom.baseStepLatency]
  rfl

theorem replay_traced {events : List MemoryIntentEvent} (hroom : Roomier sim sim')
    (h : sim.replay order s events = .ok t) :
    Traced s t (sim'.replay order' s events = .ok t) := by
  induction events generalizing s with
  | nil =>
    cases h
    exact .none rfl rfl
  | cons e events ih =>
    obtain ⟨u, hstep, hrest⟩ := Replay.run_cons_ok.mp h
    have hstepped : Traced s u (sim'.runEvent order' s e = .ok u) := runEvent_traced hroom hstep
    refine (hstepped.trans (ih hrest)).map rfl rfl ?_
    rintro ⟨hstep', hrest'⟩
    exact Replay.run_cons_ok.mpr ⟨u, hstep', hrest'⟩

/-- A run that logs no decision and exhausts no capacity ends in the same state, with the
same figures, under every simulator with at least as much HBM and the same latencies,
whatever its policy (up to prefetches), its DRAM capacity and its set order. The state the
run starts from may have a log of its own. -/
theorem policy_irrelevant_without_pressure {events : List MemoryIntentEvent} {result : SimulationResult}
    (hroom : Roomier sim sim') (h : sim.run order s events = .ok (t, result))
    (hlog : t.decisionLog = s.decisionLog)
    (hexhaustion : result.capacityExhaustionEvents = s.capacityExhaustionEvents) :
    sim'.run order' s events =
      .ok (t, { result with
        policyName := sim'.policy.name
        hbmCapacityBytes := sim'.hbmCapacityBytes
        dramCapacityBytes := sim'.dramCapacityBytes }) := by
  obtain ⟨hreplay, rfl⟩ := run_ok h
  have hexhaustion' : t.capacityExhaustionEvents = s.capacityExhaustionEvents := hexhaustion
  have hquiet : t.traces = s.traces := by rw [SimulatorState.traces, hlog, hexhaustion']; rfl
  have hreplay' : sim'.replay order' s events = .ok t := (replay_traced hroom hreplay).same hquiet
  exact run_of_replay hreplay'

def deadlineThirtyBytes : KVMemorySimulator where
  policy := DeadlineAwarePolicy
  hbmCapacityBytes := 30
  dramCapacityBytes := 100

/-- More HBM and no DRAM at all. -/
def lruFortyBytes : KVMemorySimulator where
  policy := LRUPolicy
  hbmCapacityBytes := 40
  dramCapacityBytes := 0

/-- A miss, an explicit spill and a prefetch that the policy declines. -/
def roomyTrace : List MemoryIntentEvent :=
  [sampleEvent 0 .allocated (sampleIntent "a" {.hbm, .dram} .hbm),
    sampleEvent 1 .accessed (sampleIntent "b" {.hbm, .dram} .dram),
    sampleEvent 2 .spilled (sampleIntent "a" {.hbm, .dram} .hbm),
    sampleEvent 3 .prefetched (sampleIntent "a" {.hbm, .dram} .dram)]

theorem policy_irrelevant_without_pressure_sample :
    ∃ t result, deadlineThirtyBytes.run .fastestFirst .initial roomyTrace = .ok (t, result) ∧
      lruFortyBytes.run .slowestFirst .initial roomyTrace =
        .ok (t, { result with
          policyName := "LRU"
          hbmCapacityBytes := 40
          dramCapacityBytes := 0 }) ∧
      result.missCount = 1 ∧ result.spillCount = 1 := by
  obtain ⟨⟨t, result⟩, h, hcheck⟩ := Replay.exists_of_check
    (x := deadlineThirtyBytes.run .fastestFirst .initial roomyTrace)
    (p := fun r => decide (r.1.decisionLog = [] ∧ r.2.capacityExhaustionEvents = 0 ∧
      r.2.missCount = 1 ∧ r.2.spillCount = 1)) (by decide +kernel)
  obtain ⟨hlog, hexhaustion, hcounts⟩ := of_decide_eq_true hcheck
  have hroom : Roomier deadlineThirtyBytes lruFortyBytes :=
    ⟨by decide, rfl, rfl, rfl, fun _ _ haccepted => by cases haccepted⟩
  exact ⟨t, result, h, policy_irrelevant_without_pressure hroom h hlog hexhaustion, hcounts⟩

end KVMemorySimulator

end KVMemoryIntent
