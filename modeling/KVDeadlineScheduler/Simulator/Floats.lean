-- SUMMARY: Runs that make floats of the numbers in a score: they end where a number is too large, and are the exact runs where all numbers fit.
import KVDeadlineScheduler.Library.DoubleRange
import KVDeadlineScheduler.Simulator.Blocks

/-!
# Numbers too large for a float

To rank the blocks and to explain a choice, a policy makes floats of deadlines, slacks
and distances of steps. Integers have no bound and floats have one, so a run may end
there. `runInFloats` makes these conversions pass by pass. Its scores are exact all
the same.
-/

namespace KVMemoryIntent

/-- `float(i)` for each of the integers. -/
def convertToFloats (numbers : List ℤ) : Except Failure Unit :=
  if ∀ i ∈ numbers, Double.Fits i then .ok ()
  else .error (.overflowError "int too large to convert to float")

theorem convertToFloats_ok {numbers : List ℤ} (h : ∀ i ∈ numbers, Double.Fits i) :
    convertToFloats numbers = .ok () := if_pos h

theorem convertToFloats_error {numbers : List ℤ} {i : ℤ} (hin : i ∈ numbers) (hi : 2 ^ 1024 ≤ i) :
    convertToFloats numbers = .error (.overflowError "int too large to convert to float") := by
  have hi' : ((2 ^ 1024 : ℤ) : ℚ) ≤ i := Int.cast_le.mpr hi
  rw [Int.cast_pow, Int.cast_ofNat] at hi'
  exact if_neg fun hall => Double.not_fits_of_le hi' (hall i hin)

namespace KVMemorySimulator

variable (sim : KVMemorySimulator) (order : SetOrder)

/-- The conversions of one pass of the capacity loop. -/
def passFloats (s : SimulatorState) (currentStep : ℤ) : List ℤ :=
  let candidates := order.candidates s
  match sim.checkCapacity order s currentStep with
  | .fits | .allPinned => []
  | .noVictim => sim.policy.choiceFloats candidates currentStep
  | .displace victim =>
    sim.policy.choiceFloats candidates currentStep
      ++ sim.policy.explanationFloats victim candidates currentStep

/-- The conversions of the capacity loop. -/
def convertLoop (currentStep : ℤ) : ℕ → SimulatorState → Except Failure Unit
  | 0, _ => .ok ()
  | fuel + 1, s => do
    convertToFloats (sim.passFloats order s currentStep)
    match sim.checkCapacity order s currentStep with
    | .displace victim => convertLoop currentStep fuel (sim.displaceVictim order s victim currentStep).1
    | _ => .ok ()

/-- The state in which a branch calls `_ensure_hbm_capacity`, if it does. -/
def loopEntry (s : SimulatorState) (event : MemoryIntentEvent) (existing : Option MemoryIntent)
    (intent : MemoryIntent) : Except Failure (Option SimulatorState) :=
  match event.eventType with
  | .allocated =>
    let s := storeAllocated s intent
    .ok (if intent.currentTier = .hbm then some { s with hbmBlocks := insert intent.objectId s.hbmBlocks }
      else none)
  | .accessed => do
    let stored := (s.liveBlocks.get? intent.objectId).getD intent
    let block ← (touch stored intent event.step).postInit
    let s := { s with liveBlocks := s.liveBlocks.set intent.objectId block }
    .ok (if block.objectId ∉ s.hbmBlocks then some (placeInHbm (recordMiss s block) block) else none)
  | .prefetched =>
    match existing with
    | none => .ok none
    | some block =>
      if block.objectId ∉ s.hbmBlocks then do
        let mergedBlock ← mergeIntent block intent IntentField.all
        let s := { s with liveBlocks := s.liveBlocks.set mergedBlock.objectId mergedBlock }
        .ok (if sim.policy.shouldPrefetch mergedBlock event.step then
          some (placeInHbm { s with prefetchCount := s.prefetchCount + 1 } mergedBlock) else none)
      else
        .ok none
  | _ => .ok none

def convertEntry (currentStep : ℤ) : Option SimulatorState → Except Failure Unit
  | none => .ok ()
  | some entry => sim.convertLoop order currentStep (capacityFuel entry) entry

/-- An event in floats: the conversions come between the merge and the decay. -/
def runEventInFloats (s : SimulatorState) (event : MemoryIntentEvent) : Except Failure SimulatorState := do
  let incoming ← event.intent.copyWith
  let existing := s.liveBlocks.get? incoming.objectId
  let intent ← mergeIncoming event incoming existing
  let entry ← sim.loopEntry s event existing intent
  sim.convertEntry order event.step entry
  sim.runEvent order s event

def replayInFloats (s : SimulatorState) (events : List MemoryIntentEvent) : Except Failure SimulatorState :=
  Replay.run (sim.runEventInFloats order) s events

/-- `KVMemorySimulator.run`, with the conversions that may end it. -/
def runInFloats (s : SimulatorState) (events : List MemoryIntentEvent) :
    Except Failure (SimulatorState × SimulationResult) := do
  let s' ← sim.replayInFloats order s events
  let result ← sim.result s' events
  pure (s', result)

end KVMemorySimulator

/-! ## Numbers that fit -/

/-- The numbers of an intent that a score may read. -/
def MemoryIntent.scoreNumbers (m : MemoryIntent) : List ℤ :=
  m.deadlineUs.toList ++ m.slackUs.toList ++ m.targetDecodeStep.toList
    ++ m.expectedReuseWindowTokens.toList ++ m.recomputeCostUs.toList ++ [m.lastAccessStep]

theorem MemoryIntent.scoreNumbers_within_iff {m : MemoryIntent} {c : ℤ} :
    (∀ i ∈ m.scoreNumbers, |i| ≤ c) ↔
      (∀ d ∈ m.deadlineUs, |d| ≤ c) ∧ (∀ d ∈ m.slackUs, |d| ≤ c) ∧ (∀ d ∈ m.targetDecodeStep, |d| ≤ c) ∧
      (∀ d ∈ m.expectedReuseWindowTokens, |d| ≤ c) ∧ (∀ d ∈ m.recomputeCostUs, |d| ≤ c) ∧
      |m.lastAccessStep| ≤ c := by
  simp only [scoreNumbers, List.forall_mem_append, List.forall_mem_singleton, Option.mem_toList,
    Option.mem_def, and_assoc]

/-- The numbers are small enough for floats to hold them and their differences. -/
def MemoryIntent.InFloatRange (m : MemoryIntent) : Prop := ∀ i ∈ m.scoreNumbers, |i| ≤ 2 ^ 1022

instance (m : MemoryIntent) : Decidable m.InFloatRange := inferInstanceAs (Decidable (∀ i ∈ _, _))

/-- The numbers of the intent and the step of the event are in range. -/
structure MemoryIntentEvent.InFloatRange (e : MemoryIntentEvent) : Prop where
  intent : e.intent.InFloatRange
  step : |e.step| ≤ 2 ^ 1022

instance (e : MemoryIntentEvent) : Decidable e.InFloatRange :=
  decidable_of_iff (e.intent.InFloatRange ∧ |e.step| ≤ 2 ^ 1022)
    ⟨fun ⟨h, h'⟩ => ⟨h, h'⟩, fun h => ⟨h.1, h.2⟩⟩

theorem fits_of_inRange {i : ℤ} (h : |i| ≤ 2 ^ 1023) : Double.Fits i := by
  have h' : ((|i| : ℤ) : ℚ) ≤ (2 ^ 1023 : ℤ) := Int.cast_le.mpr h
  rw [Int.cast_abs, Int.cast_pow, Int.cast_ofNat] at h'
  exact Double.fits_of_abs_le h'

/-- Distances of steps in range. -/
theorem fits_distance {a b : ℤ} (ha : |a| ≤ 2 ^ 1022) (hb : |b| ≤ 2 ^ 1022) :
    Double.Fits (max (a - b) 0 : ℤ) := by
  refine fits_of_inRange ?_
  have hdistance : |a - b| ≤ 2 ^ 1023 := by
    calc |a - b| ≤ |a| + |b| := abs_sub a b
      _ ≤ 2 ^ 1022 + 2 ^ 1022 := add_le_add ha hb
      _ = 2 ^ 1023 := by rw [← two_mul, ← pow_succ']
  rw [abs_of_nonneg (le_max_right _ _)]
  exact max_le ((le_abs_self _).trans hdistance) (by positivity)

section Scores

variable {m : MemoryIntent} {currentStep i : ℤ}

theorem MemoryIntent.InFloatRange.fits (h : m.InFloatRange) (hin : i ∈ m.scoreNumbers) : Double.Fits i :=
  fits_of_inRange ((h i hin).trans (pow_le_pow_right₀ (by decide) (by decide)))

theorem riskFloats_fit (h : m.InFloatRange) (hstep : |currentStep| ≤ 2 ^ 1022)
    (hin : i ∈ m.riskFloats currentStep) : Double.Fits i := by
  simp only [MemoryIntent.riskFloats, List.mem_append, Option.mem_toList] at hin
  rcases hin with (((hin | hin) | hin) | hin) | hin
  · exact h.fits (by simp [MemoryIntent.scoreNumbers, hin])
  · exact h.fits (by simp [MemoryIntent.scoreNumbers, hin])
  · obtain ⟨target, htarget, rfl⟩ := Option.map_eq_some_iff.mp hin
    exact fits_distance (h target (by simp [MemoryIntent.scoreNumbers, htarget])) hstep
  · exact h.fits (by simp [MemoryIntent.scoreNumbers, hin])
  · exact h.fits (by simp [MemoryIntent.scoreNumbers, hin])

theorem scoreFloats_fit (h : m.InFloatRange) (hstep : |currentStep| ≤ 2 ^ 1022)
    (hin : i ∈ IntentAwarePolicy.scoreFloats m currentStep) : Double.Fits i := by
  rcases List.mem_cons.mp hin with rfl | hin
  · exact fits_distance hstep (h m.lastAccessStep (by simp [MemoryIntent.scoreNumbers]))
  · exact riskFloats_fit h hstep hin

end Scores

/-- On blocks in range, the policy makes floats of numbers that fit. -/
structure PlacementPolicy.FloatsFit (p : PlacementPolicy) : Prop where
  choice : ∀ {blocks currentStep}, (∀ b ∈ blocks, MemoryIntent.InFloatRange b) → |currentStep| ≤ 2 ^ 1022 →
    ∀ i ∈ p.choiceFloats blocks currentStep, Double.Fits i
  explanation : ∀ {victim blocks currentStep}, (∀ b ∈ blocks, MemoryIntent.InFloatRange b) →
    |currentStep| ≤ 2 ^ 1022 → ∀ i ∈ p.explanationFloats victim blocks currentStep, Double.Fits i

theorem PlacementPolicy.AccessBased.floatsFit {p : PlacementPolicy} (h : p.AccessBased) : p.FloatsFit := by
  cases h with
  | lru => exact ⟨fun _ _ => nofun, fun _ _ => nofun⟩
  | hotCold => exact ⟨fun _ _ => nofun, fun _ _ => nofun⟩
  | predictiveHotness =>
    refine ⟨fun hblocks _ i hin => ?_, fun _ _ => nofun⟩
    obtain ⟨b, hb, hwindow⟩ := List.mem_flatMap.mp hin
    rw [Option.mem_toList] at hwindow
    exact (hblocks b hb).fits (by simp [MemoryIntent.scoreNumbers, hwindow])

theorem PlacementPolicy.IntentAware.floatsFit {p : PlacementPolicy} (h : p.IntentAware) : p.FloatsFit := by
  cases h with
  | subclass =>
    refine ⟨fun hblocks hstep i hin => ?_, fun hblocks hstep i hin => ?_⟩
    · obtain ⟨b, hb, hscore⟩ := List.mem_flatMap.mp hin
      exact scoreFloats_fit (hblocks b (IntentAwarePolicy.mem_of_mem_admissible hb)) hstep hscore
    · obtain ⟨b, hb, hrisk⟩ := List.mem_flatMap.mp hin
      exact riskFloats_fit (hblocks b (List.mem_filter.mp hb).1) hstep hrisk

theorem PlacementPolicy.floatsFit_of_cases {p : PlacementPolicy} (h : p.AccessBased ∨ p.IntentAware) :
    p.FloatsFit :=
  h.elim AccessBased.floatsFit IntentAware.floatsFit

namespace KVMemorySimulator

variable {sim : KVMemorySimulator} {order : SetOrder} {s t : SimulatorState} {e : MemoryIntentEvent}
  {intent : MemoryIntent} {latency : ℤ}

/-! ## Blocks in range -/

theorem keptBy_inFloatRange (he : e.InFloatRange) : KeptBy MemoryIntent.InFloatRange e where
  intent := he.intent
  marked := he.intent
  annotated b hb := by
    obtain ⟨hdeadline, hslack, htarget, hreuse, -, -⟩ := MemoryIntent.scoreNumbers_within_iff.mp he.intent
    obtain ⟨-, -, htarget', hreuse', hrecompute', hlast'⟩ := MemoryIntent.scoreNumbers_within_iff.mp hb
    unfold annotate
    split
    · exact MemoryIntent.scoreNumbers_within_iff.mpr ⟨hdeadline, hslack, htarget, hreuse, hrecompute', hlast'⟩
    · exact MemoryIntent.scoreNumbers_within_iff.mpr ⟨hdeadline, hslack, htarget', hreuse', hrecompute', hlast'⟩
    · exact hb
    · exact hb
  touched b hb := by
    obtain ⟨hdeadline, hslack, htarget, hreuse, -, -⟩ := MemoryIntent.scoreNumbers_within_iff.mp he.intent
    obtain ⟨-, -, -, -, hrecompute', -⟩ := MemoryIntent.scoreNumbers_within_iff.mp hb
    exact MemoryIntent.scoreNumbers_within_iff.mpr ⟨hdeadline, hslack, htarget, hreuse, hrecompute', he.step⟩
  retiered a b h ha := by
    obtain ⟨tier, rfl⟩ := h
    exact ha
  aged a b h ha := by
    obtain ⟨r, -, rfl⟩ := h
    exact ha

/-- Blocks in range stop no pass. -/
theorem convertLoop_ok (hp : sim.policy.FloatsFit) (hstep : |e.step| ≤ 2 ^ 1022) (fuel : ℕ)
    (hs : s.Consistent) (hall : EachBlock MemoryIntent.InFloatRange s) :
    sim.convertLoop order e.step fuel s = .ok () := by
  induction fuel generalizing s with
  | zero => rfl
  | succ fuel ih =>
    have hcandidates : ∀ b ∈ order.candidates s, b.InFloatRange := fun b hb =>
      hall _ b (SetOrder.get?_of_mem_candidates hs hb).2
    have hpass : ∀ i ∈ sim.passFloats order s e.step, Double.Fits i := by
      intro i hin
      unfold passFloats at hin
      dsimp only at hin
      split at hin
      · exact absurd hin List.not_mem_nil
      · exact absurd hin List.not_mem_nil
      · exact hp.choice hcandidates hstep i hin
      · rcases List.mem_append.mp hin with hin | hin
        · exact hp.choice hcandidates hstep i hin
        · exact hp.explanation hcandidates hstep i hin
    refine Replay.bind_eq_ok.mpr ⟨(), convertToFloats_ok hpass, ?_⟩
    split
    · rename_i victim hcheck
      have hframe := displaceVictim_frame sim e.step hs (victim_mem_candidates hcheck)
      refine ih (hframe.consistent hs) (hall.of_liveRel ?_ hframe.retiered)
      rintro a b ⟨tier, rfl⟩ ha
      exact ha
    · rfl

/-! ## Exact runs are runs in floats -/

/-- Where the dispatch on an event returns, the loop was entered as the rules say. -/
theorem loopEntry_eq (hs : s.Consistent)
    (hmerge : mergeIncoming e e.intent (s.liveBlocks.get? e.objectId) = .ok intent)
    (h : sim.dispatch order s e (s.liveBlocks.get? e.objectId) intent = .ok (t, latency)) :
    sim.loopEntry s e (s.liveBlocks.get? e.objectId) intent = .ok (capacityEntry sim s e) := by
  have hall : mergeFields e.eventType = IntentField.all → intent = e.intent :=
    intent_eq_of_merge hs hmerge
  unfold loopEntry capacityEntry
  unfold dispatch at h
  cases htype : e.eventType with
  | allocated =>
    obtain rfl := hall (by rw [htype]; rfl)
    rfl
  | accessed =>
    rw [htype] at h
    obtain ⟨hid, htouch⟩ := touch_merged htype hmerge
    have hkey : ((s.liveBlocks.get? e.objectId).getD e.intent).objectId = e.objectId := by
      cases hget : s.liveBlocks.get? e.objectId with
      | none => rfl
      | some existing => exact hs.objectId_eq _ _ hget
    rw [hkey] at hid
    obtain ⟨block, hblock, -⟩ := Replay.bind_eq_ok.mp h
    have hsame : block = accessedBlock s e := by
      rw [hid, htouch] at hblock
      exact (MemoryIntent.postInit_eq hblock e.intent_valid.pinned).1
    refine Replay.bind_eq_ok.mpr ⟨block, hblock, ?_⟩
    subst hsame
    have hobj : (accessedBlock s e).objectId = e.objectId := hkey
    simp only [hobj, hid, ite_not]
    rfl
  | prefetched =>
    obtain rfl := hall (by rw [htype]; rfl)
    cases hget : s.liveBlocks.get? e.objectId with
    | none => rfl
    | some existing =>
      have hid : existing.objectId = e.intent.objectId := hs.objectId_eq _ _ hget
      have hmerged : mergeIntent existing e.intent IntentField.all = .ok e.intent := by
        rw [mergeIntent, overwrite_all hid, e.intent_valid.postInit]
      have hobj : existing.objectId = e.objectId := hid
      by_cases hin : e.objectId ∈ s.hbmBlocks
      · simp [hobj, hin]
      · simp only [hobj, hin, not_false_eq_true, if_true, true_and]
        refine Replay.bind_eq_ok.mpr ⟨_, hmerged, ?_⟩
        rfl
  | _ => rfl

/-- An event that goes through with blocks in range goes through in floats. -/
theorem runEventInFloats_of_ok (hp : sim.policy.FloatsFit) (he : e.InFloatRange) (hs : s.Consistent)
    (hall : EachBlock MemoryIntent.InFloatRange s) (h : sim.runEvent order s e = .ok t) :
    sim.runEventInFloats order s e = .ok t := by
  have hrun := h
  obtain ⟨incoming, hcopy, h⟩ := Replay.bind_eq_ok.mp h
  obtain ⟨intent, hmerge, h⟩ := Replay.bind_eq_ok.mp h
  obtain ⟨⟨u, latency⟩, hdispatch, -⟩ := Replay.bind_eq_ok.mp h
  refine Replay.bind_eq_ok.mpr ⟨incoming, hcopy, Replay.bind_eq_ok.mpr ⟨intent, hmerge, ?_⟩⟩
  -- the intent of an event is valid, so its copy is the intent itself
  rw [MemoryIntent.copyWith, e.intent_valid.postInit] at hcopy
  cases hcopy
  refine Replay.bind_eq_ok.mpr ⟨_, loopEntry_eq hs hmerge hdispatch, ?_⟩
  refine Replay.bind_eq_ok.mpr ⟨(), ?_, hrun⟩
  cases hentry : capacityEntry sim s e with
  | none => rfl
  | some entry =>
    exact convertLoop_ok hp he.step _ (capacityEntry_consistent hs hentry)
      (capacityEntry_eachBlock (keptBy_inFloatRange he) hs hall hentry)

theorem replayInFloats_of_ok {events : List MemoryIntentEvent} (hp : sim.policy.FloatsFit)
    (hrange : ∀ e ∈ events, e.InFloatRange) (hs : s.Consistent)
    (hall : EachBlock MemoryIntent.InFloatRange s) (h : sim.replay order s events = .ok t) :
    sim.replayInFloats order s events = .ok t := by
  induction events generalizing s with
  | nil => exact h
  | cons e events ih =>
    obtain ⟨u, hstep, hrest⟩ := Replay.run_cons_ok.mp h
    have he : e.InFloatRange := hrange e List.mem_cons_self
    have hu := runEvent_eachBlock (keptBy_inFloatRange he) hs hall hstep
    refine Replay.run_cons_ok.mpr ⟨u, runEventInFloats_of_ok hp he hs hall hstep, ?_⟩
    exact ih (fun e he => hrange e (List.mem_cons_of_mem _ he)) (runEvent_consistent hs hstep) hu hrest

theorem eachBlock_initial (P : MemoryIntent → Prop) : EachBlock P SimulatorState.initial := by
  simp [EachBlock, SimulatorState.initial]

/-- A run on events in range is the exact run. -/
theorem runInFloats_of_ok {events : List MemoryIntentEvent} {result : SimulationResult}
    (hp : sim.policy.FloatsFit) (hrange : ∀ e ∈ events, e.InFloatRange)
    (h : sim.run order SimulatorState.initial events = .ok (t, result)) :
    sim.runInFloats order SimulatorState.initial events = .ok (t, result) := by
  obtain ⟨u, hreplay, h⟩ := Replay.bind_eq_ok.mp h
  have hfloats := replayInFloats_of_ok hp hrange SimulatorState.consistent_initial (eachBlock_initial _) hreplay
  exact Replay.bind_eq_ok.mpr ⟨u, hfloats, h⟩

end KVMemorySimulator

end KVMemoryIntent
