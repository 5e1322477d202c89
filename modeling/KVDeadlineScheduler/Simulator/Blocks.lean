-- SUMMARY: The invariant rule for live blocks: what holds of the intents of events and survives every rewrite of a block.
import KVDeadlineScheduler.Simulator.Effects

/-!
# Invariants of the live blocks

An event stores its own intent or rewrites a live block: it touches or annotates it,
puts it into another tier or ages it. A property that holds of the intent and
survives these rewrites holds of every live block.
-/

namespace KVMemoryIntent

namespace KVMemorySimulator

variable {sim : KVMemorySimulator} {order : SetOrder} {s s' t : SimulatorState}
  {e : MemoryIntentEvent} {latency : ℤ} {C : SimulatorState → MemoryIntent → Prop}
  {P : MemoryIntent → Prop}

/-- Every live block satisfies `P`. -/
def EachBlock (P : MemoryIntent → Prop) (s : SimulatorState) : Prop :=
  ∀ id b, s.liveBlocks.get? id = some b → P b

/-- `P` holds of the intent of the event, and of what the event may make of a block
that satisfies it. -/
structure KeptBy (P : MemoryIntent → Prop) (e : MemoryIntentEvent) : Prop where
  intent : P e.intent
  marked : P (markedUnknownBlock e)
  annotated : ∀ b, P b → P (annotate e b)
  touched : ∀ b, P b → P (touch b e.intent e.step)
  retiered : ∀ a b, SimulatorState.Retiered a b → P a → P b
  aged : ∀ a b, SimulatorState.Aged a b → P a → P b

theorem EachBlock.of_set {id : String} {block : MemoryIntent} (h : EachBlock P s)
    (hlive : t.liveBlocks = s.liveBlocks.set id block) (hblock : P block) : EachBlock P t := by
  intro id' b hb
  rw [hlive, OrderedDict.get?_set] at hb
  split at hb
  · cases hb
    exact hblock
  · exact h id' b hb

theorem EachBlock.of_liveRel {R : MemoryIntent → MemoryIntent → Prop} (hR : ∀ a b, R a b → P a → P b)
    (h : EachBlock P s) (hrel : s.LiveRel R t) : EachBlock P t := by
  intro id b' hb'
  obtain ⟨b, hb, hab⟩ := hrel.of_some hb'
  exact hR b b' hab (h id b hb)

theorem KeptBy.accessedBlock (hP : KeptBy P e) (h : EachBlock P s) : P (accessedBlock s e) := by
  refine hP.touched _ ?_
  cases hget : s.liveBlocks.get? e.objectId with
  | none => exact hP.intent
  | some existing => exact h _ existing hget

/-- The block that is missed, with the tier it is brought into. -/
theorem KeptBy.missedBlock (hP : KeptBy P e) (h : EachBlock P s) :
    P { KVMemorySimulator.accessedBlock s e with currentTier := .hbm } :=
  hP.retiered _ _ ⟨_, rfl⟩ (hP.accessedBlock h)

theorem KeptBy.prefetchedBlock (hP : KeptBy P e) : P { e.intent with currentTier := .hbm } :=
  hP.retiered _ _ ⟨_, rfl⟩ hP.intent

theorem capacityEntry_eachBlock (hP : KeptBy P e) (hs : s.Consistent) (h : EachBlock P s)
    (ht : t ∈ capacityEntry sim s e) : EachBlock P t := by
  unfold capacityEntry at ht
  split at ht
  · split at ht
    · cases ht
      exact h.of_set stored_allocatedInHbm.liveBlocks hP.intent
    · cases ht
  · split at ht
    · cases ht
    · cases ht
      exact h.of_set (stored_missedInHbm hs).liveBlocks (hP.missedBlock h)
  · split at ht
    · cases ht
    · split at ht
      · cases ht
        exact h.of_set stored_prefetchedInHbm.liveBlocks hP.prefetchedBlock
      · cases ht
  · cases ht

theorem CapacityRun.eachBlock {currentStep : ℤ} (hP : KeptBy P e)
    (h : CapacityRun sim order currentStep C s latency t) (hs : s.Consistent) (hall : EachBlock P s) :
    EachBlock P t :=
  hall.of_liveRel hP.retiered (h.frame hs).retiered

theorem Dispatched.eachBlock (hP : KeptBy P e) (h : Dispatched sim order C s e t latency)
    (hs : s.Consistent) (hall : EachBlock P s) : EachBlock P t := by
  cases h with
  | allocatedHbm _ _ hrun =>
    have hentry : EachBlock P (allocatedInHbm s e) :=
      hall.of_set stored_allocatedInHbm.liveBlocks hP.intent
    have hu := hrun.eachBlock hP (stored_allocatedInHbm.consistent hs) hentry
    exact hu
  | allocatedDram => exact hall.of_set stored_allocatedInDram.liveBlocks hP.intent
  | allocatedOther => exact hall.of_set stored_storeAllocated.liveBlocks hP.intent
  | hit => exact hall.of_set rfl (hP.accessedBlock hall)
  | miss _ _ _ hrun =>
    have hmissed := stored_missedInHbm (s := s) (e := e) hs
    have hentry : EachBlock P (missedInHbm s e) :=
      hall.of_set hmissed.liveBlocks (hP.missedBlock hall)
    have hu := hrun.eachBlock hP (hmissed.consistent hs) hentry
    exact hu
  | markedUnknown => exact hall.of_set rfl hP.marked
  | annotated _ hget => exact hall.of_set rfl (hP.annotated _ (hall _ _ hget))
  | spilled _ hget =>
    exact hall.of_set (stored_spilled hs hget).liveBlocks (hP.retiered _ _ ⟨_, rfl⟩ (hall _ _ hget))
  | prefetchDeclined => exact hall.of_set rfl hP.intent
  | prefetched _ hrun =>
    have hentry : EachBlock P (prefetchedInHbm s e) :=
      hall.of_set stored_prefetchedInHbm.liveBlocks hP.prefetchedBlock
    have hu := hrun.eachBlock hP (stored_prefetchedInHbm.consistent hs) hentry
    exact hu
  | evicted => exact hall
  | freed => exact fun id b hb => hall id b (get?_of_runFreed hb).2
  | unchanged => exact hall

/-- The invariant rule: one event. -/
theorem runEvent_eachBlock (hP : KeptBy P e) (hs : s.Consistent) (hall : EachBlock P s)
    (h : sim.runEvent order s e = .ok s') : EachBlock P s' := by
  obtain ⟨t, latency, hd, -, hsettled⟩ := runEvent_ok hs victimsMeet_true h
  exact (hd.eachBlock hP hs hall).of_liveRel hP.aged hsettled.aged

/-- The invariant rule: a trace on a fresh simulator. -/
theorem replay_eachBlock {events : List MemoryIntentEvent} (hP : ∀ e ∈ events, KeptBy P e)
    (h : sim.replay order .initial events = .ok s) : EachBlock P s := by
  have hinitial : EachBlock P SimulatorState.initial := by
    simp [EachBlock, SimulatorState.initial]
  exact replay_invariant (C := fun _ e => KeptBy P e) hinitial
    (fun _ _ _ hs hall hP hstep => runEvent_eachBlock hP hs hall hstep) (.of_forall_mem hP)
    (List.prefix_refl _) h

end KVMemorySimulator

end KVMemoryIntent
