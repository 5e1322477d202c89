-- SUMMARY: The capacity loop ends: how many blocks it displaces, and the three ways in which it stops.
import KVDeadlineScheduler.Simulator.HbmBound

/-!
# Exits of the capacity loop

`Displacements` lists the victims of the passes that the loop completes. The last
pass displaces nothing: HBM is within its capacity, or every resident block is
pinned and the policy protects pins, or no block is left. The policies only fail to
name a victim when they are shown no block, so the last case needs a negative
capacity.
-/

namespace KVMemoryIntent

namespace KVMemorySimulator

variable {sim : KVMemorySimulator} {order : SetOrder} {s s' t : SimulatorState} {currentStep : ℤ}
  {victim : MemoryIntent} {victims : List MemoryIntent}

/-! ## Displacements -/

/-- From `s` the loop displaces `victims` one after the other, each while HBM is over
its capacity, and reaches `t`. -/
inductive Displacements (sim : KVMemorySimulator) (order : SetOrder) (currentStep : ℤ) :
    SimulatorState → List MemoryIntent → SimulatorState → Prop where
  | nil {s : SimulatorState} : Displacements sim order currentStep s [] s
  | cons {s t : SimulatorState} {victim : MemoryIntent} {victims : List MemoryIntent}
      (hover : sim.hbmCapacityBytes < s.hbmUsed)
      (hchoice : sim.policy.chooseVictim (order.candidates s) sim.hbmCapacityBytes currentStep =
        some victim)
      (hrest : Displacements sim order currentStep
        (sim.displaceVictim order s victim currentStep).1 victims t) :
      Displacements sim order currentStep s (victim :: victims) t

theorem Displacements.consistent (h : Displacements sim order currentStep s victims t)
    (hs : s.Consistent) : t.Consistent := by
  induction h with
  | nil => exact hs
  | cons _ hchoice _ ih =>
    exact ih ((displaceVictim_frame sim currentStep hs (sim.policy.chooseVictim_mem hchoice)).consistent hs)

/-- Each displacement takes one id out of HBM. -/
theorem Displacements.length_add (h : Displacements sim order currentStep s victims t)
    (hs : s.Consistent) : victims.length + t.hbmBlocks.card = s.hbmBlocks.card := by
  induction h with
  | nil => simp
  | cons _ hchoice _ ih =>
    have hmem := sim.policy.chooseVictim_mem hchoice
    have hrest := ih ((displaceVictim_frame sim currentStep hs hmem).consistent hs)
    have hcard := Finset.card_erase_add_one (SetOrder.get?_of_mem_candidates hs hmem).1
    rw [displaceVictim_hbmBlocks] at hrest
    rw [List.length_cons]
    omega

/-- Displacements record no exhaustion. -/
theorem Displacements.exhaustion (h : Displacements sim order currentStep s victims t) :
    t.capacityExhaustionEvents = s.capacityExhaustionEvents ∧
      t.pinnedCapacityExhaustionEvents = s.pinnedCapacityExhaustionEvents := by
  induction h with
  | nil => exact ⟨rfl, rfl⟩
  | cons _ _ _ ih =>
    exact ⟨ih.1.trans displaceVictim_exhaustion, ih.2.trans displaceVictim_pinnedExhaustion⟩

/-! ## The last pass -/

/-- The last pass of the loop, from the state it finds to the one it leaves. -/
inductive LastPass (sim : KVMemorySimulator) (order : SetOrder) (currentStep : ℤ)
    (s : SimulatorState) : SimulatorState → Prop where
  | fits (h : sim.checkCapacity order s currentStep = .fits) : LastPass sim order currentStep s s
  | allPinned (h : sim.checkCapacity order s currentStep = .allPinned) :
      LastPass sim order currentStep s (sim.recordPinnedExhaustion s currentStep)
  | noVictim (h : sim.checkCapacity order s currentStep = .noVictim) :
      LastPass sim order currentStep s (recordExhaustion s)

/-- A run of the loop is a series of displacements and a last pass. -/
theorem CapacityRun.displacements {C : SimulatorState → MemoryIntent → Prop} {latency : ℤ}
    (h : CapacityRun sim order currentStep C s latency s') :
    ∃ victims t, Displacements sim order currentStep s victims t ∧ LastPass sim order currentStep t s' := by
  induction h with
  | fits h => exact ⟨[], _, .nil, .fits h⟩
  | allPinned h => exact ⟨[], _, .nil, .allPinned h⟩
  | noVictim h => exact ⟨[], _, .nil, .noVictim h⟩
  | displace h _ _ ih =>
    obtain ⟨victims, t, hdisplaced, hlast⟩ := ih
    obtain ⟨hover, -, hchoice⟩ := checkCapacity_displace h
    exact ⟨_ :: victims, t, .cons hover hchoice hdisplaced, hlast⟩

/-! ## Exits -/

inductive CapacityExit where
  | fits
  | allPinned
  | empty

/-- What the loop has reached and recorded when it returns in `s'`, having been
entered in `s`. -/
def CapacityExit.Describes (sim : KVMemorySimulator) (s s' : SimulatorState) : CapacityExit → Prop
  | .fits => s'.hbmUsed ≤ sim.hbmCapacityBytes ∧
      s'.capacityExhaustionEvents = s.capacityExhaustionEvents ∧
      s'.pinnedCapacityExhaustionEvents = s.pinnedCapacityExhaustionEvents
  | .allPinned => sim.policy.protectsPinned = true ∧ sim.hbmCapacityBytes < s'.hbmUsed ∧
      s'.hbmBlocks.Nonempty ∧
      (∀ id ∈ s'.hbmBlocks, ∃ b, s'.liveBlocks.get? id = some b ∧ b.pinRequested = true) ∧
      s'.capacityExhaustionEvents = s.capacityExhaustionEvents + 1 ∧
      s'.pinnedCapacityExhaustionEvents = s.pinnedCapacityExhaustionEvents + 1
  | .empty => sim.hbmCapacityBytes < 0 ∧ s'.hbmBlocks = ∅ ∧
      s'.capacityExhaustionEvents = s.capacityExhaustionEvents + 1 ∧
      s'.pinnedCapacityExhaustionEvents = s.pinnedCapacityExhaustionEvents

/-- The three exits exclude each other: by the usage, by the exhaustion that is
recorded, and by what is left in HBM. -/
theorem CapacityExit.describes_unique {x y : CapacityExit} (hx : x.Describes sim s s')
    (hy : y.Describes sim s s') : x = y := by
  have hfits : ∀ {z : CapacityExit}, CapacityExit.fits.Describes sim s s' → z.Describes sim s s' →
      z = .fits := by
    intro z hx hz
    cases z with
    | fits => rfl
    | allPinned => exact absurd hx.1 (not_le.mpr hz.2.1)
    | empty =>
      have hsame := hx.2.1.symm.trans hz.2.2.1
      omega
  have hpinned : CapacityExit.allPinned.Describes sim s s' → ¬CapacityExit.empty.Describes sim s s' :=
    fun hx hy => hx.2.2.1.ne_empty hy.2.1
  cases x with
  | fits => exact (hfits hx hy).symm
  | allPinned =>
    cases y with
    | fits => exact hfits hy hx
    | allPinned => rfl
    | empty => exact absurd hy (hpinned hx)
  | empty =>
    cases y with
    | fits => exact hfits hy hx
    | allPinned => exact absurd hx (hpinned hy)
    | empty => rfl

/-- The last pass from a state in which the exhaustion counters are those of `s`. -/
theorem LastPass.describes (h : LastPass sim order currentStep t s') (ht : t.Consistent)
    (hnone : ∀ {blocks : List MemoryIntent},
      sim.policy.chooseVictim blocks sim.hbmCapacityBytes currentStep = none → blocks = [])
    (hexhaustion : t.capacityExhaustionEvents = s.capacityExhaustionEvents)
    (hpinned : t.pinnedCapacityExhaustionEvents = s.pinnedCapacityExhaustionEvents) :
    ∃ exit : CapacityExit, exit.Describes sim s s' := by
  cases h with
  | fits h => exact ⟨.fits, checkCapacity_fits h, hexhaustion, hpinned⟩
  | allPinned h =>
    obtain ⟨hover, hne, hall, hprotects⟩ := checkCapacity_allPinned h
    refine ⟨.allPinned, hprotects, hover, ?_, fun id hin => ?_, congrArg (· + 1) hexhaustion,
      congrArg (· + 1) hpinned⟩
    · obtain ⟨b, hb⟩ := List.exists_mem_of_ne_nil _ hne
      exact ⟨_, (SetOrder.get?_of_mem_candidates ht hb).1⟩
    · obtain ⟨b, hb⟩ := ht.hbm_live id hin
      exact ⟨b, hb, hall b (SetOrder.mem_candidates.mpr ⟨id, hin, hb⟩)⟩
  | noVictim h =>
    obtain ⟨hover, hchoice⟩ := checkCapacity_noVictim h
    have hnil := hnone hchoice
    have hempty := SetOrder.candidates_eq_nil ht hnil
    rw [hbmUsed_eq_zero ht hnil] at hover
    exact ⟨.empty, hover, hempty, congrArg (· + 1) hexhaustion, hpinned⟩

/-- The record of the usage changes nothing an exit speaks of. -/
theorem CapacityExit.describes_recordUsage {exit : CapacityExit} :
    exit.Describes sim s s'.recordUsage ↔ exit.Describes sim s s' := by
  cases exit <;> exact Iff.rfl

/-- From a consistent state, under a policy selected by name, the enforcement of the
capacity returns. It displaces at most as many blocks as are resident, each while HBM
is over its capacity, and exactly one of the three exits describes how it ends. -/
theorem ensureHbmCapacity_exits {name : String} (sim : KVMemorySimulator) (order : SetOrder)
    (currentStep : ℤ) (hs : s.Consistent) (hp : policyFromName name = .ok sim.policy) :
    ∃ s' latency, sim.ensureHbmCapacity order s currentStep = .ok (s', latency) ∧
      (∃ victims t, Displacements sim order currentStep s victims t ∧
        victims.length ≤ s.hbmBlocks.card ∧
        ∃ u, LastPass sim order currentStep t u ∧ s' = u.recordUsage) ∧
      ∃! exit : CapacityExit, exit.Describes sim s s' := by
  obtain ⟨s', latency, h⟩ := ensureHbmCapacity_total sim order currentStep hs
  obtain ⟨u, hrun, rfl⟩ := capacityRun_of_ensure (eachVictim_true _ _) h
  obtain ⟨victims, t, hdisplaced, hlast⟩ := hrun.displacements
  have hnone : ∀ {blocks : List MemoryIntent},
      sim.policy.chooseVictim blocks sim.hbmCapacityBytes currentStep = none → blocks = [] := by
    intro blocks hchoice
    rcases policyFromName_cases hp with hp | hp
    · exact hp.eq_nil_of_none hchoice
    · exact hp.eq_nil_of_none hchoice
  have hlength := hdisplaced.length_add hs
  obtain ⟨exit, hexit⟩ := hlast.describes (hdisplaced.consistent hs) hnone hdisplaced.exhaustion.1
    hdisplaced.exhaustion.2
  refine ⟨_, latency, h, ⟨victims, t, hdisplaced, by omega, u, hlast, rfl⟩, exit, ?_, fun y hy => ?_⟩
  · exact CapacityExit.describes_recordUsage.mpr hexit
  · exact CapacityExit.describes_unique hy (CapacityExit.describes_recordUsage.mpr hexit)

/-- Two resident blocks of ten bytes, when HBM has shrunk to ten. -/
theorem ensureHbmCapacity_exits_shrunk :
    ∃ s, (pressured LRUPolicy).replay .fastestFirst .initial (pressureTrace.take 2) = .ok s ∧
      ∃ s' latency, ({ pressured LRUPolicy with hbmCapacityBytes := 10 } : KVMemorySimulator).ensureHbmCapacity
          .fastestFirst s 2 = .ok (s', latency) ∧
        ∃! exit : CapacityExit, exit.Describes
          { pressured LRUPolicy with hbmCapacityBytes := 10 } s s' := by
  obtain ⟨s, h, -⟩ := Replay.exists_of_check
    (x := (pressured LRUPolicy).replay .fastestFirst .initial (pressureTrace.take 2))
    (p := fun _ => true) (by decide +kernel)
  have hs : s.Consistent := replay_consistent SimulatorState.consistent_initial h
  have hname : policyFromName "lru" = .ok LRUPolicy := by
    unfold policyFromName
    rw [if_pos (by decide +kernel)]
  obtain ⟨s', latency, hreturns, -, hexit⟩ := ensureHbmCapacity_exits
    { pressured LRUPolicy with hbmCapacityBytes := 10 } .fastestFirst 2 hs hname
  exact ⟨s, h, s', latency, hreturns, hexit⟩

end KVMemorySimulator

end KVMemoryIntent
