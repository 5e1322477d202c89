-- SUMMARY: Two replays that enumerate sets in different orders: they agree when no victim has a choice of fallback tiers.
import KVDeadlineScheduler.Simulator.HbmBound
import KVDeadlineScheduler.Simulator.Validation

/-!
# Set order

Set order reaches a run through the candidate list and through the first fallback
tier of a victim. The policies do not see the order of the candidates, but the
fallback tier of a victim with two of them is whichever comes first. Two runs are
related by `SameUpToReasons`: the explanation texts name the first protected
candidate, and they are the only thing order may change.
-/

namespace KVMemoryIntent

/-- The decisions differ at most in the explanation. -/
def DecisionRecord.SameDecision (r r' : DecisionRecord) : Prop :=
  ∃ reason, r' = { r with reason := reason }

namespace SimulatorState

def withLog (s : SimulatorState) (log : List DecisionRecord) : SimulatorState :=
  { s with decisionLog := log }

/-- The states differ at most in the explanations of the decision log. -/
def SameUpToReasons (s s' : SimulatorState) : Prop :=
  ∃ log, s' = s.withLog log ∧ List.Forall₂ DecisionRecord.SameDecision s.decisionLog log

theorem SameUpToReasons.refl (s : SimulatorState) : SameUpToReasons s s :=
  ⟨s.decisionLog, rfl, List.forall₂_same.mpr fun r _ => ⟨r.reason, rfl⟩⟩

end SimulatorState

namespace KVMemorySimulator

open SimulatorState

variable {sim : KVMemorySimulator} {order order' : SetOrder} {s s' t : SimulatorState}
  {log : List DecisionRecord} {e : MemoryIntentEvent} {currentStep latency : ℤ} {victim : MemoryIntent}

/-- Both sides fail alike or end in the same state, up to explanations, with the
same latency. -/
def AgreeOnResults : Except Failure (SimulatorState × ℤ) → Except Failure (SimulatorState × ℤ) → Prop :=
  Replay.Agree fun r r' => SameUpToReasons r.1 r'.1 ∧ r.2 = r'.2

/-- The victim may live in at most one tier other than HBM. -/
def OneFallback (_s : SimulatorState) (victim : MemoryIntent) : Prop :=
  (victim.allowedTiers.erase .hbm).card ≤ 1

instance : Decidable (OneFallback s victim) := by
  unfold OneFallback
  infer_instance

/-! ## One pass -/

theorem candidates_perm : (order.candidates s).Perm (order'.candidates (s.withLog log)) := by
  apply List.Perm.filterMap
  rw [List.perm_ext_iff_of_nodup (order.nodup_hbmBlocks s) (order'.nodup_hbmBlocks _)]
  intro id
  rw [order.mem_hbmBlocks, order'.mem_hbmBlocks]
  exact Iff.rfl

/-- Candidates with one object id are one block. -/
theorem candidates_inj (hs : s.Consistent) :
    ∀ a ∈ order.candidates s, ∀ b ∈ order.candidates s, a.objectId = b.objectId → a = b := by
  intro a ha b hb hid
  have hgetA := (SetOrder.get?_of_mem_candidates hs ha).2
  have hgetB := (SetOrder.get?_of_mem_candidates hs hb).2
  rw [hid, hgetB] at hgetA
  exact (Option.some.inj hgetA).symm

theorem checkCapacity_withLog (hp : sim.policy.OrderIndependent) (hs : s.Consistent) :
    sim.checkCapacity order' (s.withLog log) currentStep = sim.checkCapacity order s currentStep := by
  have hperm : (order.candidates s).Perm (order'.candidates (s.withLog log)) := candidates_perm
  have hnil : order'.candidates (s.withLog log) ≠ [] ↔ order.candidates s ≠ [] := by
    rw [ne_eq, ne_eq, ← List.length_eq_zero_iff, ← List.length_eq_zero_iff, hperm.length_eq]
  have hpinned : (order'.candidates (s.withLog log)).all (·.pinRequested) =
      (order.candidates s).all (·.pinRequested) := (hperm.all_eq).symm
  have hvictim := hp sim.hbmCapacityBytes currentStep hperm (candidates_inj hs)
  have hused : (s.withLog log).hbmUsed = s.hbmUsed := rfl
  unfold checkCapacity
  simp only [hnil, hpinned, hused, hvictim]

/-- With one fallback at most, the first fallback does not depend on the order. -/
theorem targetTier_withLog (hone : OneFallback s victim) :
    targetTier order' (s.withLog log) victim = targetTier order s victim := by
  have hperm : ((order'.allowedTiers (s.withLog log) victim).filter (· ≠ .hbm)).Perm
      ((order.allowedTiers s victim).filter (· ≠ .hbm)) := by
    apply List.Perm.filter
    rw [List.perm_ext_iff_of_nodup (order'.nodup_allowedTiers _ _) (order.nodup_allowedTiers _ _)]
    intro tier
    rw [order.mem_allowedTiers, order'.mem_allowedTiers]
  have hlength : ((order.allowedTiers s victim).filter (· ≠ .hbm)).length ≤ 1 := by
    have hnodup := (order.nodup_allowedTiers s victim).filter (· ≠ .hbm)
    refine le_trans (le_of_eq (List.toFinset_card_of_nodup hnodup).symm) (le_trans ?_ hone)
    refine Finset.card_le_card fun tier htier => ?_
    rw [List.mem_toFinset, List.mem_filter, order.mem_allowedTiers] at htier
    exact Finset.mem_erase.mpr ⟨by simpa using htier.2, htier.1⟩
  -- two permuted lists of at most one element are equal
  unfold targetTier
  generalize (order'.allowedTiers (s.withLog log) victim).filter (· ≠ .hbm) = l' at hperm
  generalize (order.allowedTiers s victim).filter (· ≠ .hbm) = l at hperm hlength
  match l, hlength with
  | [], _ => rw [List.perm_nil.mp hperm]
  | [tier], _ => rw [List.perm_singleton.mp hperm]

theorem targetTier_startingWith {first : Tier} (hfirst : first ∈ victim.allowedTiers.erase .hbm) :
    targetTier (SetOrder.startingWith first) s victim = some first := by
  obtain ⟨hne, hmem⟩ := Finset.mem_erase.mp hfirst
  simp [targetTier, SetOrder.startingWith, SetOrder.ofTiers, hmem, hne]

/-- The fallback of a victim is the same in all orders exactly when it has one at
most. -/
theorem oneFallback_iff :
    OneFallback s victim ↔
      ∀ order order' : SetOrder, targetTier order s victim = targetTier order' s victim := by
  constructor
  · intro hone order order'
    have hsame : targetTier order (s.withLog s.decisionLog) victim = targetTier order' s victim :=
      targetTier_withLog hone
    exact hsame
  · intro hall
    by_contra hmany
    -- of two fallbacks each comes first in some order
    obtain ⟨a, ha, b, hb, hne⟩ := Finset.one_lt_card.mp (not_le.mp hmany)
    have hsame := hall (SetOrder.startingWith a) (SetOrder.startingWith b)
    rw [targetTier_startingWith ha, targetTier_startingWith hb] at hsame
    exact hne (Option.some.inj hsame)

/-- A decision logged on both sides keeps the states related. -/
theorem logDecision_same {action : DecisionAction} {reason reason' : String} {avoided : Bool}
    (h : SameUpToReasons s s') :
    SameUpToReasons (sim.logDecision s currentStep action victim reason avoided)
      (sim.logDecision s' currentStep action victim reason' avoided) := by
  obtain ⟨log, rfl, hlog⟩ := h
  refine ⟨log ++ [sim.decisionRecord currentStep action victim reason' avoided], rfl, ?_⟩
  exact List.rel_append hlog (.cons ⟨reason', rfl⟩ .nil)

theorem displaceVictim_same (hone : OneFallback s victim)
    (hlog : List.Forall₂ DecisionRecord.SameDecision s.decisionLog log) :
    SameUpToReasons (sim.displaceVictim order s victim currentStep).1
        (sim.displaceVictim order' (s.withLog log) victim currentStep).1 ∧
      (sim.displaceVictim order s victim currentStep).2 =
        (sim.displaceVictim order' (s.withLog log) victim currentStep).2 := by
  have hperm : (order.candidates s).Perm (order'.candidates (s.withLog log)) := candidates_perm
  have havoided : ((order.candidates s).any fun block =>
        block.objectId ≠ victim.objectId && block.isDecodeCritical) =
      (order'.candidates (s.withLog log)).any fun block =>
        block.objectId ≠ victim.objectId && block.isDecodeCritical := hperm.any_eq
  have htarget : targetTier order' (s.withLog log) victim = targetTier order s victim :=
    targetTier_withLog hone
  have hdram : (countDisplaced (s.withLog log) victim).dramUsed = (countDisplaced s victim).dramUsed := rfl
  unfold displaceVictim
  dsimp only
  rw [htarget, havoided, hdram]
  split
  · exact ⟨logDecision_same ⟨log, rfl, hlog⟩, rfl⟩
  · exact ⟨logDecision_same ⟨log, rfl, hlog⟩, rfl⟩

/-! ## The loop -/

theorem ensureHbmCapacityLoop_same (hp : sim.policy.OrderIndependent) {fuel : ℕ} {added : ℤ}
    (hs : s.Consistent) (hone : EachVictim sim order OneFallback currentStep fuel s)
    (hlog : List.Forall₂ DecisionRecord.SameDecision s.decisionLog log) :
    AgreeOnResults (sim.ensureHbmCapacityLoop order currentStep fuel s added)
      (sim.ensureHbmCapacityLoop order' currentStep fuel (s.withLog log) added) := by
  induction fuel generalizing s added log with
  | zero => exact .error _
  | succ fuel ih =>
    unfold ensureHbmCapacityLoop
    unfold EachVictim at hone
    rw [checkCapacity_withLog hp hs]
    cases hcheck : sim.checkCapacity order s currentStep with
    | fits => exact .ok ⟨⟨log, rfl, hlog⟩, rfl⟩
    | allPinned =>
      refine .ok ⟨⟨log ++ [sim.exhaustionRecord currentStep], rfl, ?_⟩, rfl⟩
      exact List.rel_append hlog (.cons ⟨_, rfl⟩ .nil)
    | noVictim => exact .ok ⟨⟨log, rfl, hlog⟩, rfl⟩
    | displace victim =>
      -- both sides displace the same victim to the same tier, and go on from related states
      rw [hcheck] at hone
      have hframe := displaceVictim_frame sim currentStep hs (victim_mem_candidates hcheck)
      have hsame : SameUpToReasons (sim.displaceVictim order s victim currentStep).1
            (sim.displaceVictim order' (s.withLog log) victim currentStep).1 ∧
          (sim.displaceVictim order s victim currentStep).2 =
            (sim.displaceVictim order' (s.withLog log) victim currentStep).2 :=
        displaceVictim_same hone.1 hlog
      obtain ⟨⟨log', heq, hlog'⟩, hlatency⟩ := hsame
      dsimp only
      rw [heq, ← hlatency]
      exact ih (hframe.consistent hs) hone.2 hlog'

theorem ensureHbmCapacity_same (hp : sim.policy.OrderIndependent) (hs : s.Consistent)
    (hone : EachVictim sim order OneFallback currentStep (capacityFuel s) s)
    (hlog : List.Forall₂ DecisionRecord.SameDecision s.decisionLog log) :
    AgreeOnResults (sim.ensureHbmCapacity order s currentStep)
      (sim.ensureHbmCapacity order' (s.withLog log) currentStep) := by
  have hloop : AgreeOnResults (sim.ensureHbmCapacityLoop order currentStep (capacityFuel s) s 0)
      (sim.ensureHbmCapacityLoop order' currentStep (capacityFuel s) (s.withLog log) 0) :=
    ensureHbmCapacityLoop_same hp hs hone hlog
  refine hloop.bind ?_
  rintro ⟨u, l⟩ ⟨-, -⟩ ⟨⟨log', rfl, hlog'⟩, rfl⟩
  exact .ok ⟨⟨log', rfl, hlog'⟩, rfl⟩

theorem moveToHbm_same {block : MemoryIntent} (hp : sim.policy.OrderIndependent)
    (hs : (placeInHbm s block).Consistent)
    (hone : EachVictim sim order OneFallback currentStep (capacityFuel (placeInHbm s block))
      (placeInHbm s block))
    (hlog : List.Forall₂ DecisionRecord.SameDecision s.decisionLog log) :
    AgreeOnResults (sim.moveToHbm order s block currentStep)
      (sim.moveToHbm order' (s.withLog log) block currentStep) := by
  have hcapacity : AgreeOnResults (sim.ensureHbmCapacity order (placeInHbm s block) currentStep)
      (sim.ensureHbmCapacity order' ((placeInHbm s block).withLog log) currentStep) :=
    ensureHbmCapacity_same hp hs hone hlog
  refine hcapacity.bind ?_
  rintro ⟨u, l⟩ ⟨-, -⟩ ⟨⟨log', rfl, hlog'⟩, rfl⟩
  exact .ok ⟨⟨log', rfl, hlog'⟩, rfl⟩

/-! ## The branches -/

theorem runAllocated_same (hp : sim.policy.OrderIndependent) (hs : s.Consistent)
    (htype : e.eventType = .allocated) (hone : VictimsMeet sim order OneFallback s e)
    (hlog : List.Forall₂ DecisionRecord.SameDecision s.decisionLog log) :
    AgreeOnResults (sim.runAllocated order s e.step e.intent)
      (sim.runAllocated order' (s.withLog log) e.step e.intent) := by
  unfold runAllocated
  dsimp only
  split
  · rename_i htier
    have hentry : allocatedInHbm s e ∈ capacityEntry sim s e := by
      simp [capacityEntry, htype, htier]
    have hcapacity : AgreeOnResults (sim.ensureHbmCapacity order (allocatedInHbm s e) e.step)
        (sim.ensureHbmCapacity order' ((allocatedInHbm s e).withLog log) e.step) :=
      ensureHbmCapacity_same hp (stored_allocatedInHbm.consistent hs) (hone _ hentry) hlog
    refine hcapacity.bind ?_
    rintro ⟨u, l⟩ ⟨-, -⟩ ⟨⟨log', rfl, hlog'⟩, rfl⟩
    exact .ok ⟨⟨log', rfl, hlog'⟩, rfl⟩
  · exact .ok ⟨⟨log, rfl, hlog⟩, rfl⟩
  · exact .ok ⟨⟨log, rfl, hlog⟩, rfl⟩
  · exact .ok ⟨⟨log, rfl, hlog⟩, rfl⟩

theorem runAccessed_same {intent : MemoryIntent} (hp : sim.policy.OrderIndependent) (hs : s.Consistent)
    (htype : e.eventType = .accessed) (hone : VictimsMeet sim order OneFallback s e)
    (hmerge : mergeIncoming e e.intent (s.liveBlocks.get? e.objectId) = .ok intent)
    (hlog : List.Forall₂ DecisionRecord.SameDecision s.decisionLog log) :
    AgreeOnResults (sim.runAccessed order s e.step intent)
      (sim.runAccessed order' (s.withLog log) e.step intent) := by
  have hid := mergeIncoming_objectId hs hmerge
  have htouch := (touch_merged htype hmerge).2
  rw [← hid] at htouch
  unfold runAccessed
  refine Replay.Agree.bind_same fun block hblock => ?_
  rw [htouch] at hblock
  obtain ⟨rfl, hvalid⟩ := MemoryIntent.postInit_eq hblock e.intent_valid.pinned
  have hobj := accessedBlock_objectId (e := e) hs
  rw [hid]
  dsimp only
  by_cases hout : (accessedBlock s e).objectId ∉ s.hbmBlocks
  · have hout' : (accessedBlock s e).objectId ∉ (s.withLog log).hbmBlocks := hout
    rw [if_pos hout, if_pos hout']
    have hn : ¬e.objectId ∈ s.hbmBlocks := hobj ▸ hout
    have hentry : missedInHbm s e ∈ capacityEntry sim s e := by simp [capacityEntry, htype, hn]
    have hmove : AgreeOnResults
        (sim.moveToHbm order (recordMiss (storeBlock s e (accessedBlock s e)) (accessedBlock s e))
          (accessedBlock s e) e.step)
        (sim.moveToHbm order'
          ((recordMiss (storeBlock s e (accessedBlock s e)) (accessedBlock s e)).withLog log)
          (accessedBlock s e) e.step) :=
      moveToHbm_same hp ((stored_missedInHbm hs).consistent hs) (hone _ hentry) hlog
    refine hmove.bind ?_
    rintro ⟨u, l⟩ ⟨-, -⟩ ⟨⟨log', rfl, hlog'⟩, rfl⟩
    exact .ok ⟨⟨log', rfl, hlog'⟩, rfl⟩
  · have hin' : ¬(accessedBlock s e).objectId ∉ (s.withLog log).hbmBlocks := hout
    rw [if_neg hout, if_neg hin']
    exact .ok ⟨⟨log, rfl, hlog⟩, rfl⟩

theorem runPrefetched_same (hp : sim.policy.OrderIndependent) (hs : s.Consistent)
    (htype : e.eventType = .prefetched) (hone : VictimsMeet sim order OneFallback s e)
    (hlog : List.Forall₂ DecisionRecord.SameDecision s.decisionLog log) :
    AgreeOnResults (sim.runPrefetched order s e.step (s.liveBlocks.get? e.objectId) e.intent)
      (sim.runPrefetched order' (s.withLog log) e.step (s.liveBlocks.get? e.objectId) e.intent) := by
  cases hget : s.liveBlocks.get? e.objectId with
  | none => exact .ok ⟨⟨log, rfl, hlog⟩, rfl⟩
  | some existing =>
    have hid : existing.objectId = e.intent.objectId := hs.objectId_eq _ _ hget
    unfold runPrefetched
    dsimp only
    by_cases hout : existing.objectId ∉ s.hbmBlocks
    · have hout' : existing.objectId ∉ (s.withLog log).hbmBlocks := hout
      rw [if_pos hout, if_pos hout']
      refine Replay.Agree.bind_same fun merged hmerged => ?_
      rw [mergeIntent, overwrite_all hid, e.intent_valid.postInit] at hmerged
      cases hmerged
      by_cases haccept : sim.policy.shouldPrefetch e.intent e.step = true
      · rw [if_pos haccept, if_pos haccept]
        rw [hid] at hout
        have hn : ¬e.objectId ∈ s.hbmBlocks := hout
        have hentry : prefetchedInHbm s e ∈ capacityEntry sim s e := by
          simp [capacityEntry, htype, hget, hn, haccept]
        have hmove : AgreeOnResults
            (sim.moveToHbm order { storeBlock s e e.intent with prefetchCount := s.prefetchCount + 1 }
              e.intent e.step)
            (sim.moveToHbm order'
              (SimulatorState.withLog
                { storeBlock s e e.intent with prefetchCount := s.prefetchCount + 1 } log)
              e.intent e.step) :=
          moveToHbm_same hp (stored_prefetchedInHbm.consistent hs) (hone _ hentry) hlog
        refine hmove.bind ?_
        rintro ⟨u, l⟩ ⟨v, m⟩ ⟨hsame, rfl⟩
        exact .ok ⟨logDecision_same hsame, rfl⟩
      · rw [if_neg haccept, if_neg haccept]
        exact .ok ⟨⟨log, rfl, hlog⟩, rfl⟩
    · have hin' : ¬existing.objectId ∉ (s.withLog log).hbmBlocks := hout
      rw [if_neg hout, if_neg hin']
      exact .ok ⟨⟨log, rfl, hlog⟩, rfl⟩

theorem runMarkedDecodeCritical_same {existing : Option MemoryIntent} {intent : MemoryIntent}
    (hlog : List.Forall₂ DecisionRecord.SameDecision s.decisionLog log) :
    AgreeOnResults (runMarkedDecodeCritical s existing intent)
      (runMarkedDecodeCritical (s.withLog log) existing intent) := by
  cases existing with
  | none => exact Replay.Agree.bind_same fun _ _ => .ok ⟨⟨log, rfl, hlog⟩, rfl⟩
  | some existing => exact Replay.Agree.bind_same fun _ _ => .ok ⟨⟨log, rfl, hlog⟩, rfl⟩

theorem runMarkedCold_same {existing : Option MemoryIntent} {intent : MemoryIntent}
    (hlog : List.Forall₂ DecisionRecord.SameDecision s.decisionLog log) :
    AgreeOnResults (runMarkedCold s existing intent) (runMarkedCold (s.withLog log) existing intent) := by
  cases existing with
  | none => exact .ok ⟨⟨log, rfl, hlog⟩, rfl⟩
  | some existing => exact Replay.Agree.bind_same fun _ _ => .ok ⟨⟨log, rfl, hlog⟩, rfl⟩

theorem runCommitted_same {existing : Option MemoryIntent} {intent : MemoryIntent}
    (hlog : List.Forall₂ DecisionRecord.SameDecision s.decisionLog log) :
    AgreeOnResults (runCommitted s existing intent) (runCommitted (s.withLog log) existing intent) := by
  cases existing with
  | none => exact .ok ⟨⟨log, rfl, hlog⟩, rfl⟩
  | some existing => exact Replay.Agree.bind_same fun _ _ => .ok ⟨⟨log, rfl, hlog⟩, rfl⟩

theorem runSpilled_same {existing : Option MemoryIntent}
    (hlog : List.Forall₂ DecisionRecord.SameDecision s.decisionLog log) :
    AgreeOnResults (sim.runSpilled s existing) (sim.runSpilled (s.withLog log) existing) := by
  cases existing with
  | none => exact .ok ⟨⟨log, rfl, hlog⟩, rfl⟩
  | some existing =>
    unfold runSpilled
    dsimp only
    split
    · exact Replay.Agree.bind_same fun _ _ => .ok ⟨⟨log, rfl, hlog⟩, rfl⟩
    · exact .ok ⟨⟨log, rfl, hlog⟩, rfl⟩

theorem dispatch_same {intent : MemoryIntent} (hp : sim.policy.OrderIndependent) (hs : s.Consistent)
    (hone : VictimsMeet sim order OneFallback s e)
    (hmerge : mergeIncoming e e.intent (s.liveBlocks.get? e.objectId) = .ok intent)
    (hlog : List.Forall₂ DecisionRecord.SameDecision s.decisionLog log) :
    AgreeOnResults (sim.dispatch order s e (s.liveBlocks.get? e.objectId) intent)
      (sim.dispatch order' (s.withLog log) e (s.liveBlocks.get? e.objectId) intent) := by
  have hall : mergeFields e.eventType = IntentField.all → intent = e.intent :=
    intent_eq_of_merge hs hmerge
  unfold dispatch
  cases htype : e.eventType with
  | allocated =>
    obtain rfl := hall (by rw [htype]; rfl)
    exact runAllocated_same hp hs htype hone hlog
  | accessed => exact runAccessed_same hp hs htype hone hmerge hlog
  | markedDecodeCritical => exact runMarkedDecodeCritical_same hlog
  | markedCold => exact runMarkedCold_same hlog
  | committed => exact runCommitted_same hlog
  | spilled => exact runSpilled_same hlog
  | prefetched =>
    obtain rfl := hall (by rw [htype]; rfl)
    exact runPrefetched_same hp hs htype hone hlog
  | miss => exact .ok ⟨⟨log, rfl, hlog⟩, rfl⟩
  | evicted =>
    cases s.liveBlocks.get? e.objectId with
    | none => exact .ok ⟨⟨log, rfl, hlog⟩, rfl⟩
    | some existing => exact .ok ⟨⟨log, rfl, hlog⟩, rfl⟩
  | freed => exact .ok ⟨⟨log, rfl, hlog⟩, rfl⟩

/-! ## Runs -/

theorem decayRecency_same (hlog : List.Forall₂ DecisionRecord.SameDecision s.decisionLog log) :
    Replay.Agree SameUpToReasons (decayRecency s currentStep) (decayRecency (s.withLog log) currentStep) := by
  unfold decayRecency
  by_cases hstep : currentStep ≠ s.lastDecayStep
  · have hstep' : currentStep ≠ (s.withLog log).lastDecayStep := hstep
    rw [if_pos hstep, if_pos hstep']
    exact Replay.Agree.bind_same fun _ _ => .ok ⟨log, rfl, hlog⟩
  · have hstep' : ¬currentStep ≠ (s.withLog log).lastDecayStep := hstep
    rw [if_neg hstep, if_neg hstep']
    exact .ok ⟨log, rfl, hlog⟩

/-- An event whose victims have one fallback at most goes alike in both orders. -/
theorem runEvent_same (hp : sim.policy.OrderIndependent) (hs : s.Consistent)
    (hone : VictimsMeet sim order OneFallback s e) (hsame : SameUpToReasons s s') :
    Replay.Agree SameUpToReasons (sim.runEvent order s e) (sim.runEvent order' s' e) := by
  obtain ⟨log, rfl, hlog⟩ := hsame
  -- the copy of the event's intent and the merge do not look at the log
  refine Replay.Agree.bind_same fun incoming hcopy => ?_
  rw [MemoryIntent.copyWith, e.intent_valid.postInit] at hcopy
  cases hcopy
  refine Replay.Agree.bind_same fun intent hmerge => ?_
  refine (dispatch_same hp hs hone hmerge hlog).bind ?_
  rintro ⟨u, l⟩ ⟨-, -⟩ ⟨⟨log', rfl, hlog'⟩, rfl⟩
  refine (decayRecency_same hlog').bind ?_
  rintro v - ⟨log'', rfl, hlog''⟩
  exact .ok ⟨log'', rfl, hlog''⟩

/-- The relation of the two runs, with what it says about the state on the left. -/
theorem replay_same (hp : sim.policy.OrderIndependent) {events : List MemoryIntentEvent}
    (hone : Replay.Meets (sim.runEvent order) (VictimsMeet sim order OneFallback)
      SimulatorState.initial events) :
    Replay.Agree SameUpToReasons (sim.replay order SimulatorState.initial events)
      (sim.replay order' SimulatorState.initial events) := by
  have hlockstep : Replay.Agree (fun s s' => s.Consistent ∧ SameUpToReasons s s')
      (sim.replay order SimulatorState.initial events) (sim.replay order' SimulatorState.initial events) := by
    refine Replay.lockstep ?_ ⟨SimulatorState.consistent_initial, .refl _⟩ hone
    rintro s s' e ⟨hs, hsame⟩ hone
    have hagree : Replay.Agree SameUpToReasons (sim.runEvent order s e) (sim.runEvent order' s' e) :=
      runEvent_same hp hs hone hsame
    exact hagree.imp_left fun t t' ht h => ⟨runEvent_consistent hs ht, h⟩
  exact hlockstep.imp_left fun _ _ _ h => h.2

theorem policy_orderIndependent (hp : sim.policy.AccessBased ∨ sim.policy.IntentAware) :
    sim.policy.OrderIndependent := by
  rcases hp with haccess | hintent
  · exact haccess.orderIndependent
  · exact hintent.orderIndependent

/-- When every displaced block has at most one tier besides HBM, two runs that
enumerate sets in different orders agree after every event up to the texts of
explanations, and they return the same result. The policy is any class of the
repository. -/
theorem run_order_independent (hp : sim.policy.AccessBased ∨ sim.policy.IntentAware)
    {events : List MemoryIntentEvent} (order' : SetOrder)
    (hone : Replay.Meets (sim.runEvent order) (VictimsMeet sim order OneFallback)
      SimulatorState.initial events) :
    (∀ pre, pre <+: events → Replay.Agree SameUpToReasons
      (sim.replay order SimulatorState.initial pre) (sim.replay order' SimulatorState.initial pre)) ∧
    Replay.Agree (fun r r' => SameUpToReasons r.1 r'.1 ∧ r.2 = r'.2)
      (sim.run order SimulatorState.initial events) (sim.run order' SimulatorState.initial events) := by
  have hindependent : sim.policy.OrderIndependent := policy_orderIndependent hp
  refine ⟨fun pre hpre => replay_same hindependent (hone.restrict hpre), ?_⟩
  have hreplay : Replay.Agree SameUpToReasons (sim.replay order SimulatorState.initial events)
      (sim.replay order' SimulatorState.initial events) := replay_same hindependent hone
  refine hreplay.bind ?_
  rintro s - ⟨log, rfl, hlog⟩
  -- the result does not show the decision log
  exact Replay.Agree.bind_same fun _ _ => .ok ⟨⟨log, rfl, hlog⟩, rfl⟩

/-- Blocks that fall back to DRAM only spill alike in both orders. -/
theorem run_order_independent_pressure :
    Replay.Agree (fun r r' => SameUpToReasons r.1 r'.1 ∧ r.2 = r'.2)
      ((pressured LRUPolicy).run SetOrder.fastestFirst SimulatorState.initial pressureTrace)
      ((pressured LRUPolicy).run SetOrder.slowestFirst SimulatorState.initial pressureTrace) := by
  have hname : policyFromName "lru" = .ok (pressured LRUPolicy).policy := rfl
  exact (run_order_independent (policyFromName_cases hname) SetOrder.slowestFirst (by decide +kernel)).2

/-- Two blocks that may fall back to DRAM or NVMe share an HBM of ten bytes. -/
def choiceTrace : List MemoryIntentEvent :=
  [sampleEvent 0 .allocated (sampleIntent "a" {.hbm, .dram, .nvme} .hbm),
    sampleEvent 1 .allocated (sampleIntent "b" {.hbm, .dram, .nvme} .hbm)]

/-- With DRAM enumerated first the victim spills to DRAM, with NVMe first it is
evicted, and the results differ. -/
theorem run_depends_on_order :
    policyFromName "lru" = .ok LRUPolicy ∧
    ∃ r r', (tenBytes LRUPolicy).run SetOrder.fastestFirst SimulatorState.initial choiceTrace = .ok r ∧
      (tenBytes LRUPolicy).run SetOrder.slowestFirst SimulatorState.initial choiceTrace = .ok r' ∧
      r.1.dramBlocks ≠ r'.1.dramBlocks ∧ r.2 ≠ r'.2 := by
  refine ⟨rfl, ?_⟩
  obtain ⟨r, h, hcheck⟩ := Replay.exists_of_check
    (x := (tenBytes LRUPolicy).run SetOrder.fastestFirst SimulatorState.initial choiceTrace)
    (p := fun r => decide (r.1.dramBlocks = {"a"} ∧ r.2.spillCount = 1)) (by decide +kernel)
  obtain ⟨r', h', hcheck'⟩ := Replay.exists_of_check
    (x := (tenBytes LRUPolicy).run SetOrder.slowestFirst SimulatorState.initial choiceTrace)
    (p := fun r => decide (r.1.dramBlocks = ∅ ∧ r.2.spillCount = 0)) (by decide +kernel)
  obtain ⟨hdram, hspills⟩ := of_decide_eq_true hcheck
  obtain ⟨hdram', hspills'⟩ := of_decide_eq_true hcheck'
  refine ⟨r, r', h, h', ?_, fun heq => ?_⟩
  · rw [hdram, hdram']
    exact Finset.singleton_ne_empty _
  · rw [heq, hspills'] at hspills
    cases hspills

end KVMemorySimulator

end KVMemoryIntent
