-- SUMMARY: How far the deadline-aware policy protects decode-critical blocks, in its victim choice and in every run.
import KVDeadlineScheduler.Simulator.Effects
import KVDeadlineScheduler.Urgency

/-!
# Decode-critical victims

Only the priority DECODE_CRITICAL comes with a pin. The phase DECODE is a term of
the score, which other terms can outweigh, so a block in that phase is safe
before the blocks that are not more urgent otherwise.
-/

namespace KVMemoryIntent

/-! ## The victim choice -/

namespace IntentAwarePolicy

variable {score : MemoryIntent → ℤ → ℚ} {blocks : List MemoryIntent} {currentStep : ℤ}
  {victim block : MemoryIntent}

theorem mem_admissible (hmem : block ∈ blocks) (hunpinned : block.pinRequested = false) :
    block ∈ admissible blocks := by
  have hfilter : block ∈ blocks.filter (fun block => !block.pinRequested) := by
    simp [hmem, hunpinned]
  rw [admissible, if_neg (List.ne_nil_of_mem hfilter)]
  exact hfilter

/-- No unpinned candidate has a higher score than the victim. -/
theorem score_le_victim (capacityBytes : ℤ)
    (hv : chooseVictim score blocks capacityBytes currentStep = some victim)
    (hmem : block ∈ blocks) (hunpinned : block.pinRequested = false) :
    score block currentStep ≤ score victim currentStep := by
  have hkey : key score currentStep block ≤ key score currentStep victim :=
    List.le_of_mem_argmax (mem_admissible hmem hunpinned) hv
  rcases Prod.Lex.toLex_le_toLex.mp hkey with hlt | heq
  · exact hlt.le
  · exact heq.1.le

end IntentAwarePolicy

/-- The victim is not pinned, and if it counts as decode-critical then it is in
phase DECODE and every unpinned candidate that does not count is more urgent in
some respect. -/
def SparesDecodeCritical (blocks : List MemoryIntent) (victim : MemoryIntent) : Prop :=
  victim.pinRequested = false ∧ (victim.isDecodeCritical = true →
    victim.phase = .decode ∧ victim.priority ≠ .decodeCritical ∧
      ∀ block ∈ blocks, block.pinRequested = false → block.isDecodeCritical = false →
        ¬victim.AtLeastAsUrgent block)

theorem MemoryIntent.isDecodeCritical_iff {m : MemoryIntent} :
    m.isDecodeCritical = true ↔ m.priority = .decodeCritical ∨ m.phase = .decode := by
  simp [MemoryIntent.isDecodeCritical]

theorem DeadlineAwarePolicy.sparesDecodeCritical {blocks : List MemoryIntent}
    {capacityBytes currentStep : ℤ} {victim : MemoryIntent}
    (hsound : ∀ block ∈ blocks, block.Sound) (hsome : ∃ block ∈ blocks, block.pinRequested = false)
    (hv : DeadlineAwarePolicy.chooseVictim blocks capacityBytes currentStep = some victim) :
    SparesDecodeCritical blocks victim := by
  have hunpinned := PlacementPolicy.intentAware_deadline.victim_unpinned hv hsome
  have hprio : victim.priority ≠ .decodeCritical := by
    intro hprio
    have hpinned := (hsound victim (DeadlineAwarePolicy.chooseVictim_mem hv)).pinned hprio
    rw [hunpinned] at hpinned
    cases hpinned
  refine ⟨hunpinned, fun hcritical => ?_⟩
  have hphase := (MemoryIntent.isDecodeCritical_iff.mp hcritical).resolve_left hprio
  refine ⟨hphase, hprio, fun block hmem hblock hother hurgent => ?_⟩
  have hnotDecode : block.phase ≠ .decode := by
    intro hdecode
    rw [MemoryIntent.isDecodeCritical_iff.mpr (.inr hdecode)] at hother
    cases hother
  have hlt := DeadlineAwarePolicy.evictionScore_lt_of_decode hurgent hphase hnotDecode currentStep
  have hle := IntentAwarePolicy.score_le_victim capacityBytes hv hmem hblock
  exact absurd hle (not_le.mpr hlt)

/-! ## Runs -/

namespace KVMemorySimulator

variable {sim : KVMemorySimulator} {order : SetOrder} {s : SimulatorState} {currentStep : ℤ}
  {victim : MemoryIntent}

/-- The displacement of `victim` raises the count of decode-critical evictions
only for a block that the victim choice does not spare. -/
def PressureSpares (sim : KVMemorySimulator) (order : SetOrder) (currentStep : ℤ) (s : SimulatorState)
    (victim : MemoryIntent) : Prop :=
  s.decodeCriticalEvictions <
      (sim.displaceVictim order s victim currentStep).1.decodeCriticalEvictions →
    victim.isDecodeCritical = true ∧ SparesDecodeCritical (order.candidates s) victim

theorem pressureSpares_of_displace (hpolicy : sim.policy = DeadlineAwarePolicy) (hs : s.Consistent)
    (h : sim.checkCapacity order s currentStep = .displace victim) :
    PressureSpares sim order currentStep s victim := by
  intro hraised
  rw [displaceVictim_decodeCriticalEvictions] at hraised
  obtain ⟨-, hsome, hchoice⟩ := checkCapacity_displace h
  rw [hpolicy] at hsome hchoice
  refine ⟨?_, DeadlineAwarePolicy.sparesDecodeCritical (fun block hmem => ?_) (hsome rfl) hchoice⟩
  · by_contra hnot
    simp [hnot] at hraised
  · exact hs.sound _ _ (SetOrder.get?_of_mem_candidates hs hmem).2

/-- The victim choice of the deadline-aware policy spares decode-critical blocks
as far as the pin and the score go, and so does capacity pressure in every run. -/
theorem deadlineAware_spares_decodeCritical :
    (∀ (blocks : List MemoryIntent) (capacityBytes currentStep : ℤ) (victim : MemoryIntent),
      (∀ block ∈ blocks, block.Sound) → (∃ block ∈ blocks, block.pinRequested = false) →
      DeadlineAwarePolicy.chooseVictim blocks capacityBytes currentStep = some victim →
      SparesDecodeCritical blocks victim) ∧
    ∀ (sim : KVMemorySimulator) (order : SetOrder) (events : List MemoryIntentEvent),
      sim.policy = DeadlineAwarePolicy →
      Replay.Meets (sim.runEvent order)
        (fun s e => VictimsMeet sim order (PressureSpares sim order e.step) s e)
        SimulatorState.initial events := by
  refine ⟨fun _ _ _ _ => DeadlineAwarePolicy.sparesDecodeCritical, fun sim order events hpolicy => ?_⟩
  refine .of_invariant (fun _ _ _ => runEvent_consistent) (fun s e hs => ?_)
    SimulatorState.consistent_initial events
  exact victimsMeet_of_displace (fun _ _ => pressureSpares_of_displace hpolicy) hs

/-- An unpinned block in phase DECODE that every other term speaks against. -/
def outweighedIntent : MemoryIntent :=
  { sampleIntent "decode" {.hbm, .dram} .hbm with
    phase := .decode
    priority := .cold
    expectedReuseWindowTokens := some 720
    compressionOk := true
    recomputeOk := true
    isDraft := true }

/-- A block in phase PREFILL with little time left. -/
def tightIntent : MemoryIntent :=
  { sampleIntent "prefill" {.hbm, .dram} .hbm with
    priority := .hot
    requestPriority := 100
    deadlineUs := some 500
    slackUs := some 200 }

theorem outweighed_chosen :
    DeadlineAwarePolicy.chooseVictim [outweighedIntent, tightIntent] 10 200 = some outweighedIntent := by
  decide +kernel

/-- The deadline-aware policy with room for one sample block. -/
def deadlineOneBlock : KVMemorySimulator where
  policy := DeadlineAwarePolicy
  hbmCapacityBytes := 10
  dramCapacityBytes := 10

theorem deadlineAware_spares_decodeCritical_outweighed :
    SparesDecodeCritical [outweighedIntent, tightIntent] outweighedIntent ∧
      Replay.Meets (deadlineOneBlock.runEvent .fastestFirst)
        (fun s e => VictimsMeet deadlineOneBlock .fastestFirst
          (PressureSpares deadlineOneBlock .fastestFirst e.step) s e)
        SimulatorState.initial
        [sampleEvent 0 .allocated outweighedIntent, sampleEvent 1 .allocated tightIntent] :=
  ⟨deadlineAware_spares_decodeCritical.1 _ 10 200 _
      (by
        intro block hmem
        have hvalid : ∀ block ∈ [outweighedIntent, tightIntent], block.Valid := by decide +kernel
        exact (hvalid block hmem).toSound)
      ⟨outweighedIntent, by decide +kernel⟩ outweighed_chosen,
    deadlineAware_spares_decodeCritical.2 _ _ _ rfl⟩

/-- The phase DECODE alone does not protect: such a block is chosen although
another candidate is neither pinned nor decode-critical. -/
theorem decode_phase_chosen :
    ¬∀ (blocks : List MemoryIntent) (capacityBytes currentStep : ℤ) (victim : MemoryIntent),
      (∀ block ∈ blocks, block.Valid) →
      DeadlineAwarePolicy.chooseVictim blocks capacityBytes currentStep = some victim →
      (∃ block ∈ blocks, block.pinRequested = false ∧ block.isDecodeCritical = false) →
      victim.isDecodeCritical = false := by
  intro h
  have hspared := h [outweighedIntent, tightIntent] 10 200 outweighedIntent (by decide +kernel)
    outweighed_chosen ⟨tightIntent, by decide +kernel⟩
  revert hspared
  decide +kernel

end KVMemorySimulator

end KVMemoryIntent
