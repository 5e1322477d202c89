-- SUMMARY: What a run has taken so far does not matter to what it does next: states that differ in their latencies go on alike.
import KVDeadlineScheduler.Simulator.Decay
import KVDeadlineScheduler.Simulator.Determinism
import KVDeadlineScheduler.Simulator.Lifetime

/-!
# Elapsed time

The latencies of a run are written and never read, except by the enumeration order of
the sets, which is an arbitrary function of the state. An event therefore goes alike
from two states that differ in their latencies, if the sets are enumerated from the one
as they are from the other. With one fallback at most the order does not matter either.
-/

namespace KVMemoryIntent

namespace SimulatorState

def withLatencies (s : SimulatorState) (latencies : List ℤ) : SimulatorState :=
  { s with latencies := latencies }

/-- The states differ at most in the explanations of the decision log and in the latencies. -/
def SameButTime (s s' : SimulatorState) : Prop :=
  ∃ t latencies, SameUpToReasons s t ∧ s' = t.withLatencies latencies

theorem SameButTime.refl (s : SimulatorState) : SameButTime s s :=
  ⟨s, s.latencies, .refl s, rfl⟩

theorem SameButTime.withLatencies {s s' : SimulatorState} (h : SameButTime s s') (latencies : List ℤ) :
    SameButTime (s.withLatencies latencies) s' := by
  obtain ⟨-, latencies', ⟨log, rfl, hlog⟩, rfl⟩ := h
  exact ⟨_, latencies', ⟨log, rfl, hlog⟩, rfl⟩

end SimulatorState

namespace SetOrder

open SimulatorState

/-- The order that enumerates the sets of a state as `order` does when the latencies are others. -/
def seeing (order : SetOrder) (latencies : List ℤ) : SetOrder where
  hbmBlocks s := order.hbmBlocks (s.withLatencies latencies)
  allowedTiers s block := order.allowedTiers (s.withLatencies latencies) block
  nodup_hbmBlocks s := order.nodup_hbmBlocks (s.withLatencies latencies)
  mem_hbmBlocks s := order.mem_hbmBlocks (s.withLatencies latencies)
  nodup_allowedTiers s := order.nodup_allowedTiers (s.withLatencies latencies)
  mem_allowedTiers s := order.mem_allowedTiers (s.withLatencies latencies)

end SetOrder

namespace KVMemorySimulator

open SimulatorState

variable {sim : KVMemorySimulator} {order order' : SetOrder} {s s' t : SimulatorState}
  {e : MemoryIntentEvent} {latencies : List ℤ} {currentStep : ℤ}

/-! ## Other latencies -/

/-- The same outcome, in a state with other latencies. -/
def timed (latencies : List ℤ) (r : SimulatorState × ℤ) : SimulatorState × ℤ :=
  (r.1.withLatencies latencies, r.2)

/-- `x` is `y` in a state with other latencies. -/
def Timed (latencies : List ℤ) (x y : Except Failure (SimulatorState × ℤ)) : Prop :=
  x = y.map (timed latencies)

section Timed

variable {x y : Except Failure (SimulatorState × ℤ)}
  {f g : SimulatorState × ℤ → Except Failure (SimulatorState × ℤ)}

theorem Timed.ok (r : SimulatorState × ℤ) : Timed latencies (.ok (timed latencies r)) (.ok r) := rfl

theorem Timed.error (failure : Failure) : Timed latencies (.error failure) (.error failure) := rfl

theorem Timed.bind (h : Timed latencies x y) (hfg : ∀ r, Timed latencies (f (timed latencies r)) (g r)) :
    Timed latencies (x >>= f) (y >>= g) := by
  rw [h]
  cases y with
  | error failure => rfl
  | ok r => exact hfg r

theorem Timed.bind_same {α : Type} {z : Except Failure α}
    {f g : α → Except Failure (SimulatorState × ℤ)} (hfg : ∀ a, Timed latencies (f a) (g a)) :
    Timed latencies (z >>= f) (z >>= g) := by
  cases z with
  | error failure => rfl
  | ok a => exact hfg a

end Timed

theorem displaceVictim_timed (victim : MemoryIntent) :
    sim.displaceVictim order (s.withLatencies latencies) victim currentStep =
      timed latencies (sim.displaceVictim (order.seeing latencies) s victim currentStep) := by
  have hdram : (countDisplaced (s.withLatencies latencies) victim).dramUsed =
      (countDisplaced s victim).dramUsed := rfl
  have htarget : targetTier order (s.withLatencies latencies) victim =
      targetTier (order.seeing latencies) s victim := rfl
  unfold displaceVictim
  dsimp only
  rw [hdram, htarget]
  split <;> rfl

theorem ensureHbmCapacityLoop_timed (fuel : ℕ) (s : SimulatorState) (added : ℤ) :
    Timed latencies (sim.ensureHbmCapacityLoop order currentStep fuel (s.withLatencies latencies) added)
      (sim.ensureHbmCapacityLoop (order.seeing latencies) currentStep fuel s added) := by
  induction fuel generalizing s added with
  | zero => exact .error _
  | succ fuel ih =>
    have hcheck : sim.checkCapacity order (s.withLatencies latencies) currentStep =
        sim.checkCapacity (order.seeing latencies) s currentStep := rfl
    unfold ensureHbmCapacityLoop
    rw [hcheck]
    cases sim.checkCapacity (order.seeing latencies) s currentStep with
    | fits => exact .ok (s, added)
    | allPinned => exact .ok (sim.recordPinnedExhaustion s currentStep, added)
    | noVictim => exact .ok (recordExhaustion s, added)
    | displace victim =>
      dsimp only
      rw [displaceVictim_timed]
      exact ih _ _

theorem ensureHbmCapacity_timed (s : SimulatorState) :
    Timed latencies (sim.ensureHbmCapacity order (s.withLatencies latencies) currentStep)
      (sim.ensureHbmCapacity (order.seeing latencies) s currentStep) := by
  have hfuel : capacityFuel (s.withLatencies latencies) = capacityFuel s := rfl
  unfold ensureHbmCapacity
  rw [hfuel]
  exact (ensureHbmCapacityLoop_timed _ s 0).bind fun r => .ok (r.1.recordUsage, r.2)

theorem moveToHbm_timed (s : SimulatorState) (block : MemoryIntent) :
    Timed latencies (sim.moveToHbm order (s.withLatencies latencies) block currentStep)
      (sim.moveToHbm (order.seeing latencies) s block currentStep) :=
  (ensureHbmCapacity_timed (placeInHbm s block)).bind fun r => .ok (r.1.recordUsage, r.2)

/-! ## The branches -/

section Branches

variable {intent : MemoryIntent} (existing : Option MemoryIntent)

theorem runAllocated_timed :
    Timed latencies (sim.runAllocated order (s.withLatencies latencies) currentStep intent)
      (sim.runAllocated (order.seeing latencies) s currentStep intent) := by
  have hentry : Timed latencies
      (sim.ensureHbmCapacity order
        { storeAllocated (s.withLatencies latencies) intent with
          hbmBlocks := insert intent.objectId s.hbmBlocks } currentStep)
      (sim.ensureHbmCapacity (order.seeing latencies)
        { storeAllocated s intent with hbmBlocks := insert intent.objectId s.hbmBlocks } currentStep) :=
    ensureHbmCapacity_timed { storeAllocated s intent with hbmBlocks := insert intent.objectId s.hbmBlocks }
  unfold runAllocated
  dsimp only
  split
  · exact hentry.bind fun r => .ok (r.1.recordUsage, r.2)
  · exact .ok (({ storeAllocated s intent with
      dramBlocks := insert intent.objectId s.dramBlocks } : SimulatorState).recordUsage, 0)
  · exact .ok ((storeAllocated s intent).recordUsage, 0)
  · exact .ok ((storeAllocated s intent).recordUsage, 0)

theorem runAccessed_timed :
    Timed latencies (sim.runAccessed order (s.withLatencies latencies) currentStep intent)
      (sim.runAccessed (order.seeing latencies) s currentStep intent) := by
  unfold runAccessed
  refine Timed.bind_same fun block => ?_
  by_cases hout : block.objectId ∉ s.hbmBlocks
  · have hout' : block.objectId ∉ (s.withLatencies latencies).hbmBlocks := hout
    dsimp only
    rw [if_pos hout, if_pos hout']
    have hmove : Timed latencies
        (sim.moveToHbm order (recordMiss { s.withLatencies latencies with
          liveBlocks := s.liveBlocks.set intent.objectId block } block) block currentStep)
        (sim.moveToHbm (order.seeing latencies) (recordMiss { s with
          liveBlocks := s.liveBlocks.set intent.objectId block } block) block currentStep) :=
      moveToHbm_timed (recordMiss { s with
        liveBlocks := s.liveBlocks.set intent.objectId block } block) block
    exact hmove.bind fun r => .ok (r.1, sim.missPenaltyUs + r.2)
  · have hout' : ¬block.objectId ∉ (s.withLatencies latencies).hbmBlocks := hout
    dsimp only
    rw [if_neg hout, if_neg hout']
    exact .ok (({ s with liveBlocks := s.liveBlocks.set intent.objectId block } :
      SimulatorState).recordUsage, 0)

theorem runMarkedDecodeCritical_timed :
    Timed latencies (runMarkedDecodeCritical (s.withLatencies latencies) existing intent)
      (runMarkedDecodeCritical s existing intent) := by
  cases existing with
  | none => exact Timed.bind_same fun block => .ok ({ s with liveBlocks := s.liveBlocks.set _ block }, 0)
  | some existing =>
    exact Timed.bind_same fun block => .ok ({ s with liveBlocks := s.liveBlocks.set _ block }, 0)

theorem runMarkedCold_timed :
    Timed latencies (runMarkedCold (s.withLatencies latencies) existing intent)
      (runMarkedCold s existing intent) := by
  cases existing with
  | none => exact .ok (s, 0)
  | some existing =>
    exact Timed.bind_same fun block => .ok ({ s with liveBlocks := s.liveBlocks.set _ block }, 0)

theorem runCommitted_timed :
    Timed latencies (runCommitted (s.withLatencies latencies) existing intent)
      (runCommitted s existing intent) := by
  cases existing with
  | none => exact .ok (s, 0)
  | some existing =>
    exact Timed.bind_same fun block => .ok ({ s with liveBlocks := s.liveBlocks.set _ block }, 0)

theorem runSpilled_timed :
    Timed latencies (sim.runSpilled (s.withLatencies latencies) existing) (sim.runSpilled s existing) := by
  cases existing with
  | none => exact .ok (s, 0)
  | some existing =>
    unfold runSpilled
    dsimp only
    split
    · exact Timed.bind_same fun updated => .ok (storeSpilled s updated, sim.spillLatencyUs)
    · exact .ok (s, 0)

theorem runPrefetched_timed :
    Timed latencies (sim.runPrefetched order (s.withLatencies latencies) currentStep existing intent)
      (sim.runPrefetched (order.seeing latencies) s currentStep existing intent) := by
  cases existing with
  | none => exact .ok (s, 0)
  | some block =>
    unfold runPrefetched
    dsimp only
    by_cases hout : block.objectId ∉ s.hbmBlocks
    · have hout' : block.objectId ∉ (s.withLatencies latencies).hbmBlocks := hout
      rw [if_pos hout, if_pos hout']
      refine Timed.bind_same fun merged => ?_
      have hmove : Timed latencies
          (sim.moveToHbm order { s.withLatencies latencies with
            liveBlocks := s.liveBlocks.set merged.objectId merged
            prefetchCount := s.prefetchCount + 1 } merged currentStep)
          (sim.moveToHbm (order.seeing latencies) { s with
            liveBlocks := s.liveBlocks.set merged.objectId merged
            prefetchCount := s.prefetchCount + 1 } merged currentStep) :=
        moveToHbm_timed { s with
          liveBlocks := s.liveBlocks.set merged.objectId merged
          prefetchCount := s.prefetchCount + 1 } merged
      split
      · refine Timed.bind hmove fun r => ?_
        exact .ok (sim.logDecision r.1 currentStep .prefetch merged (sim.prefetchReason merged) false,
          sim.prefetchLatencyUs + r.2)
      · exact .ok ({ s with liveBlocks := s.liveBlocks.set merged.objectId merged }, 0)
    · have hout' : ¬block.objectId ∉ (s.withLatencies latencies).hbmBlocks := hout
      rw [if_neg hout, if_neg hout']
      exact .ok (s, 0)

theorem dispatch_timed :
    Timed latencies (sim.dispatch order (s.withLatencies latencies) e existing intent)
      (sim.dispatch (order.seeing latencies) s e existing intent) := by
  unfold dispatch
  cases e.eventType with
  | allocated => exact runAllocated_timed
  | accessed => exact runAccessed_timed
  | markedDecodeCritical => exact runMarkedDecodeCritical_timed existing
  | markedCold => exact runMarkedCold_timed existing
  | committed => exact runCommitted_timed existing
  | spilled => exact runSpilled_timed existing
  | prefetched => exact runPrefetched_timed existing
  | miss => exact .ok (s, 0)
  | evicted =>
    cases existing with
    | none => exact .ok (s, 0)
    | some existing => exact .ok (storeEvicted s existing, 0)
  | freed => exact .ok (runFreed s intent, 0)

end Branches

/-- An event up to its decay, from a state with other latencies. -/
theorem beforeDecay_timed :
    Timed latencies (beforeDecay sim order (s.withLatencies latencies) e)
      (beforeDecay sim (order.seeing latencies) s e) :=
  Timed.bind_same fun _ => Timed.bind_same fun _ => dispatch_timed _

/-! ## Events -/

theorem beforeDecay_same (hp : sim.policy.OrderIndependent) (hs : s.Consistent)
    (hone : VictimsMeet sim order OneFallback s e) (hsame : SameUpToReasons s t) :
    AgreeOnResults (beforeDecay sim order s e) (beforeDecay sim order' t e) := by
  obtain ⟨log, rfl, hlog⟩ := hsame
  refine Replay.Agree.bind_same fun incoming hcopy => ?_
  rw [MemoryIntent.copyWith, e.intent_valid.postInit] at hcopy
  cases hcopy
  exact Replay.Agree.bind_same fun intent hmerge => dispatch_same hp hs hone hmerge hlog

/-- Only the end of an event writes a latency. -/
theorem beforeDecay_latencies {latency : ℤ} (hs : s.Consistent)
    (h : beforeDecay sim order s e = .ok (t, latency)) : t.latencies = s.latencies := by
  obtain ⟨incoming, hcopy, h⟩ := Replay.bind_eq_ok.mp h
  rw [MemoryIntent.copyWith, e.intent_valid.postInit] at hcopy
  cases hcopy
  obtain ⟨intent, hmerge, hdispatch⟩ := Replay.bind_eq_ok.mp h
  exact (dispatch_ok hs victimsMeet_true hmerge hdispatch).latencies hs

theorem decayRecency_timed :
    decayRecency (s.withLatencies latencies) currentStep =
      (decayRecency s currentStep).map (·.withLatencies latencies) := by
  have hlast : (s.withLatencies latencies).lastDecayStep = s.lastDecayStep := rfl
  have hlive : (s.withLatencies latencies).liveBlocks = s.liveBlocks := rfl
  unfold decayRecency
  rw [hlast, hlive]
  split
  · cases s.liveBlocks.traverse decayBlock <;> rfl
  · rfl

theorem decayRecency_latencies {u : SimulatorState} (h : decayRecency t currentStep = .ok u) :
    u.latencies = t.latencies := by
  unfold decayRecency at h
  split at h
  · obtain ⟨live, -, h⟩ := Replay.bind_eq_ok.mp h
    cases h
    rfl
  · cases h
    rfl

/-- An event does the same from either state, and takes as long. -/
theorem runEvent_sameButTime (hp : sim.policy.OrderIndependent) (hs : s.Consistent)
    (hone : VictimsMeet sim order OneFallback s e) (hsame : SameButTime s s') :
    Replay.Agree (fun t t' => SameButTime t t' ∧
        ∃ latency, t.latencies = s.latencies ++ [latency] ∧ t'.latencies = s'.latencies ++ [latency])
      (sim.runEvent order s e) (sim.runEvent order' s' e) := by
  obtain ⟨t, latencies, hsame, rfl⟩ := hsame
  have hbefore : AgreeOnResults (beforeDecay sim order s e)
      (beforeDecay sim (order'.seeing latencies) t e) := beforeDecay_same hp hs hone hsame
  have htimed : beforeDecay sim order' (t.withLatencies latencies) e =
      (beforeDecay sim (order'.seeing latencies) t e).map (timed latencies) := beforeDecay_timed
  rw [runEvent_eq, runEvent_eq, htimed]
  have hkept : Replay.Agree (fun r r' => r.1.latencies = s.latencies ∧ SameUpToReasons r.1 r'.1 ∧ r.2 = r'.2)
      (beforeDecay sim order s e) (beforeDecay sim (order'.seeing latencies) t e) :=
    hbefore.imp_left fun r r' hr h => ⟨beforeDecay_latencies hs hr, h⟩
  refine (hkept.map_right (timed latencies)).bind ?_
  rintro ⟨u, latency⟩ - ⟨⟨v, -⟩, ⟨hlatencies, ⟨log, rfl, hlog⟩, rfl⟩, rfl⟩
  have hdecay : Replay.Agree SameUpToReasons (decayRecency u e.step) (decayRecency (u.withLog log) e.step) :=
    decayRecency_same hlog
  have hagain : decayRecency ((u.withLog log).withLatencies latencies) e.step =
      (decayRecency (u.withLog log) e.step).map (·.withLatencies latencies) := decayRecency_timed
  dsimp only [timed]
  rw [hagain]
  have hwritten : Replay.Agree (fun w w' => w.latencies = s.latencies ∧ SameUpToReasons w w')
      (decayRecency u e.step) (decayRecency (u.withLog log) e.step) :=
    hdecay.imp_left fun w w' hw h => ⟨(decayRecency_latencies hw).trans hlatencies, h⟩
  refine (hwritten.map_right (·.withLatencies latencies)).bind ?_
  rintro w - ⟨w', ⟨hw, ⟨log', rfl, hlog'⟩⟩, rfl⟩
  refine .ok ⟨⟨_, _, ⟨log', rfl, hlog'⟩, rfl⟩, sim.baseStepLatencyUs + latency, ?_, rfl⟩
  rw [hw]

/-! ## Blocks that all have the same fallback -/

section Tiers

variable {tiers : Finset Tier}

theorem eachVictim_oneFallback (hone : (tiers.erase .hbm).card ≤ 1) (fuel : ℕ) (hs : s.Consistent)
    (hall : AllowsEverywhere tiers s) : EachVictim sim order OneFallback currentStep fuel s := by
  induction fuel generalizing s with
  | zero => trivial
  | succ fuel ih =>
    unfold EachVictim
    cases hcheck : sim.checkCapacity order s currentStep with
    | displace victim =>
      have hmem := victim_mem_candidates hcheck
      have hframe := displaceVictim_frame sim currentStep hs hmem
      have htiers : victim.allowedTiers = tiers := hall _ _ (SetOrder.get?_of_mem_candidates hs hmem).2
      have hkept : AllowsEverywhere tiers (sim.displaceVictim order s victim currentStep).1 := by
        intro id b' hb'
        obtain ⟨b, hb, hab⟩ := hframe.retiered.of_some hb'
        exact (Retiered.allowedTiers b b' hab).trans (hall id b hb)
      refine ⟨?_, ih (hframe.consistent hs) hkept⟩
      unfold OneFallback
      rwa [htiers]
    | fits => trivial
    | allPinned => trivial
    | noVictim => trivial

theorem victimsMeet_oneFallback (hone : (tiers.erase .hbm).card ≤ 1) (hs : s.Consistent)
    (hall : AllowsEverywhere tiers s) (he : e.intent.allowedTiers = tiers) :
    VictimsMeet sim order OneFallback s e := fun _ ht =>
  eachVictim_oneFallback hone _ (capacityEntry_consistent hs ht)
    (capacityEntry_eachBlock (keptBy_allowedTiers he) hs hall ht)

end Tiers

end KVMemorySimulator

end KVMemoryIntent
