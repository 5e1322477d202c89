-- SUMMARY: One object along a trace: its live block and what verification made of it; and traces whose blocks may all go to the same tiers, which never fail.
import KVDeadlineScheduler.Simulator.Blocks
import KVDeadlineScheduler.Simulator.Validation

/-!
# Lifetimes

Whether an object has a live block, and whether that block is a draft or committed,
is decided by the events of that object alone: neither the capacity loop nor the
decay pass has a say in it. A replay therefore runs one small machine for each
object. `PREFETCHED` is left out, since it stores the flags of its own intent only
if the policy accepts it.
-/

namespace KVMemoryIntent

/-- The flags of a block that verification sets. -/
structure Standing where
  isDraft : Bool
  isCommitted : Bool
  deriving DecidableEq

def MemoryIntent.standing (m : MemoryIntent) : Standing := ⟨m.isDraft, m.isCommitted⟩

/-- What an event makes of the live block of the object `id`. -/
def Standing.after (id : String) (standing : Option Standing) (e : MemoryIntentEvent) :
    Option Standing :=
  if e.objectId = id then
    match e.eventType with
    | .allocated => some e.intent.standing
    | .accessed | .markedDecodeCritical => some (standing.getD e.intent.standing)
    | .committed => standing.map fun _ => ⟨false, true⟩
    | .freed => none
    | _ => standing
  else standing

theorem Standing.after_of_ne {id : String} {e : MemoryIntentEvent} (h : e.objectId ≠ id)
    (standing : Option Standing) : Standing.after id standing e = standing :=
  if_neg h

/-- Events of other objects make no difference. -/
theorem Standing.foldl_filter (id : String) (events : List MemoryIntentEvent)
    (standing : Option Standing) :
    events.foldl (Standing.after id) standing =
      (events.filter fun e => e.objectId = id).foldl (Standing.after id) standing := by
  induction events generalizing standing with
  | nil => rfl
  | cons e events ih =>
    by_cases h : e.objectId = id
    · rw [List.filter_cons_of_pos (by simpa using h), List.foldl_cons, List.foldl_cons, ih]
    · rw [List.filter_cons_of_neg (by simpa using h), List.foldl_cons, Standing.after_of_ne h, ih]

/-- Events that name other objects only make no difference. -/
theorem Standing.foldl_unnamed {id : String} {events : List MemoryIntentEvent}
    (h : ∀ e ∈ events, e.objectId ≠ id) (standing : Option Standing) :
    events.foldl (Standing.after id) standing = standing := by
  induction events with
  | nil => rfl
  | cons e events ih =>
    rw [List.foldl_cons, Standing.after_of_ne (h e List.mem_cons_self)]
    exact ih fun e' he' => h e' (List.mem_cons_of_mem e he')

/-- Once all that comes are frees, and one of them is of the object, it has no live block. -/
theorem Standing.foldl_freed {id : String} {events : List MemoryIntentEvent}
    (hfreed : ∀ e ∈ events, e.eventType = .freed) {standing : Option Standing}
    (h : standing = none ∨ ∃ e ∈ events, e.objectId = id) :
    events.foldl (Standing.after id) standing = none := by
  induction events generalizing standing with
  | nil => simpa using h
  | cons e events ih =>
    have htype := hfreed e List.mem_cons_self
    rw [List.foldl_cons]
    apply ih fun e' he' => hfreed e' (List.mem_cons_of_mem e he')
    by_cases heq : e.objectId = id
    · exact .inl (by simp only [Standing.after, htype, if_pos heq])
    · rw [Standing.after_of_ne heq]
      rcases h with hnone | ⟨e', he', hid⟩
      · exact .inl hnone
      · rcases List.mem_cons.mp he' with rfl | he'
        · exact absurd hid heq
        · exact .inr ⟨e', he', hid⟩

namespace SimulatorState

/-- The standing of the object's live block, if it has one. -/
def standing (s : SimulatorState) (id : String) : Option Standing :=
  (s.liveBlocks.get? id).map MemoryIntent.standing

theorem standing_of_set {s t : SimulatorState} {block : MemoryIntent} {objectId : String}
    (h : t.liveBlocks = s.liveBlocks.set objectId block) (id : String) :
    t.standing id = if objectId = id then some block.standing else s.standing id := by
  unfold standing
  rw [h, OrderedDict.get?_set]
  simp only [eq_comm (a := id)]
  split <;> rfl

theorem LiveRel.standing {R : MemoryIntent → MemoryIntent → Prop} {s t : SimulatorState}
    (hR : ∀ a b, R a b → b.standing = a.standing) (h : s.LiveRel R t) (id : String) :
    t.standing id = s.standing id := by
  unfold SimulatorState.standing
  cases hb : s.liveBlocks.get? id with
  | none => rw [(h id).1 hb]
  | some b =>
    obtain ⟨b', hb', hrel⟩ := (h id).2 b hb
    rw [hb', Option.map_some, Option.map_some, hR b b' hrel]

theorem Retiered.standing (a b : MemoryIntent) (h : Retiered a b) : b.standing = a.standing := by
  obtain ⟨t, rfl⟩ := h
  rfl

theorem Retiered.allowedTiers (a b : MemoryIntent) (h : Retiered a b) :
    b.allowedTiers = a.allowedTiers := by
  obtain ⟨t, rfl⟩ := h
  rfl

theorem Aged.allowedTiers (a b : MemoryIntent) (h : Aged a b) : b.allowedTiers = a.allowedTiers := by
  obtain ⟨r, -, rfl⟩ := h
  rfl

theorem Aged.standing (a b : MemoryIntent) (h : Aged a b) : b.standing = a.standing := by
  obtain ⟨r, -, rfl⟩ := h
  rfl

end SimulatorState

namespace KVMemorySimulator

variable {sim : KVMemorySimulator} {order : SetOrder} {s s' t : SimulatorState}
  {e : MemoryIntentEvent} {latency : ℤ} {C : SimulatorState → MemoryIntent → Prop}

/-! ## The machine of one object -/

theorem accessedBlock_standing (s : SimulatorState) (e : MemoryIntentEvent) :
    (accessedBlock s e).standing = (s.standing e.objectId).getD e.intent.standing := by
  unfold accessedBlock SimulatorState.standing
  cases s.liveBlocks.get? e.objectId <;> rfl

theorem annotate_standing (e : MemoryIntentEvent) (existing : MemoryIntent) :
    (annotate e existing).standing =
      if e.eventType = .committed then ⟨false, true⟩ else existing.standing := by
  unfold annotate
  cases e.eventType <;> rfl

theorem Ignored.standing (h : Ignored s e) (htype : e.eventType ≠ .prefetched) (id : String) :
    s.standing id = Standing.after id (s.standing id) e := by
  by_cases heq : e.objectId = id
  · subst heq
    cases h with
    | miss hmiss => simp only [Standing.after, hmiss, if_true]
    | unknown hunknown hget =>
      rcases hunknown with h | h | h | h | h <;>
        simp only [Standing.after, h, if_true, SimulatorState.standing, hget, Option.map_none]
    | spillDenied hspilled => simp only [Standing.after, hspilled, if_true]
    | resident hprefetched => exact absurd hprefetched htype
  · rw [Standing.after_of_ne heq]

theorem Dispatched.standing (h : Dispatched sim order C s e t latency) (hs : s.Consistent)
    (htype : e.eventType ≠ .prefetched) (id : String) :
    t.standing id = Standing.after id (s.standing id) e := by
  have hstored : ∀ {u : SimulatorState} (block : MemoryIntent),
      u.liveBlocks = s.liveBlocks.set e.objectId block →
      some block.standing = Standing.after e.objectId (s.standing e.objectId) e →
      u.standing id = Standing.after id (s.standing id) e := by
    intro u block hlive hblock
    rw [SimulatorState.standing_of_set hlive]
    split
    next heq => rw [← heq]; exact hblock
    next hne => rw [Standing.after_of_ne hne]
  have hloop : ∀ {entry u : SimulatorState} {l : ℤ}, CapacityRun sim order e.step C entry l u →
      entry.Consistent → u.standing id = entry.standing id :=
    fun hrun hentry => (hrun.frame hentry).retiered.standing SimulatorState.Retiered.standing id
  have haccess := accessedBlock_standing s e
  cases h with
  | allocatedHbm hallocated _ hrun =>
    refine (hloop hrun (stored_allocatedInHbm.consistent hs)).trans
      (hstored _ stored_allocatedInHbm.liveBlocks ?_)
    simp only [Standing.after, hallocated, if_true]
  | allocatedDram hallocated =>
    refine hstored _ stored_allocatedInDram.liveBlocks ?_
    simp only [Standing.after, hallocated, if_true]
  | allocatedOther hallocated =>
    refine hstored _ stored_storeAllocated.liveBlocks ?_
    simp only [Standing.after, hallocated, if_true]
  | hit haccessed =>
    refine hstored (accessedBlock s e) rfl ?_
    simp only [Standing.after, haccessed, if_true, haccess]
  | miss haccessed _ _ hrun =>
    have hmissed := stored_missedInHbm (s := s) (e := e) hs
    refine (hloop hrun (hmissed.consistent hs)).trans (hstored _ hmissed.liveBlocks ?_)
    simp only [Standing.after, haccessed, if_true, ← haccess]
    rfl
  | markedUnknown hmarked hget =>
    refine hstored (markedUnknownBlock e) rfl ?_
    simp only [Standing.after, hmarked, if_true, SimulatorState.standing, hget]
    rfl
  | annotated hannotated hget =>
    refine hstored (annotate e _) rfl ?_
    rw [annotate_standing]
    rcases hannotated with h | h | h <;> simp [Standing.after, h, SimulatorState.standing, hget]
  | spilled hspilled hget =>
    refine hstored _ (stored_spilled hs hget).liveBlocks ?_
    simp only [Standing.after, hspilled, if_true, SimulatorState.standing, hget]
    rfl
  | prefetchDeclined hprefetched => exact absurd hprefetched htype
  | prefetched haccepted => exact absurd haccepted.1 htype
  | evicted hevicted =>
    by_cases heq : e.objectId = id
    · simp only [Standing.after, hevicted, if_pos heq]
      rfl
    · rw [Standing.after_of_ne heq]
      rfl
  | freed hfreed =>
    unfold SimulatorState.standing runFreed
    rw [OrderedDict.get?_erase]
    by_cases heq : e.objectId = id
    · simp only [Standing.after, hfreed, if_pos heq]
      rw [if_pos (show id = e.intent.objectId from heq.symm)]
      rfl
    · rw [Standing.after_of_ne heq, if_neg (show ¬id = e.intent.objectId from fun h => heq h.symm)]
  | unchanged hignored => exact hignored.standing htype id

/-- An event runs the machine of each object by one step. -/
theorem runEvent_standing (hs : s.Consistent) (htype : e.eventType ≠ .prefetched)
    (h : sim.runEvent order s e = .ok s') (id : String) :
    s'.standing id = Standing.after id (s.standing id) e := by
  obtain ⟨t, latency, hd, -, hsettled⟩ := runEvent_ok hs victimsMeet_true h
  rw [← hd.standing hs htype id]
  exact hsettled.aged.standing SimulatorState.Aged.standing id

/-- A replay runs the machine of each object over the trace. -/
theorem replay_standing {events : List MemoryIntentEvent} (hs : s.Consistent)
    (htype : ∀ e ∈ events, e.eventType ≠ .prefetched) (h : sim.replay order s events = .ok s')
    (id : String) : s'.standing id = events.foldl (Standing.after id) (s.standing id) := by
  induction events generalizing s with
  | nil =>
    cases h
    rfl
  | cons e events ih =>
    obtain ⟨u, hstep, hrest⟩ := Replay.run_cons_ok.mp h
    rw [List.foldl_cons, ← runEvent_standing hs (htype e List.mem_cons_self) hstep id]
    exact ih (runEvent_consistent hs hstep) (fun e' he' => htype e' (List.mem_cons_of_mem e he')) hrest

/-- Without live blocks nothing is resident. -/
theorem resident_empty (hs : s.Consistent) (h : ∀ id, s.standing id = none) :
    s.liveBlocks.keys = [] ∧ s.hbmBlocks = ∅ ∧ s.dramBlocks = ∅ := by
  have hget : ∀ id, s.liveBlocks.get? id = none := fun id => Option.map_eq_none_iff.mp (h id)
  refine ⟨?_, ?_, ?_⟩
  · unfold OrderedDict.keys
    cases hentries : s.liveBlocks.entries with
    | nil => rfl
    | cons entry rest =>
      have := hget entry.1
      simp [OrderedDict.get?, hentries] at this
  · exact Finset.eq_empty_of_forall_notMem fun id => hs.notMem_hbm (hget id)
  · exact Finset.eq_empty_of_forall_notMem fun id => hs.notMem_dram (hget id)

/-! ## Blocks that may all go to the same tiers -/

/-- Every live block may go to these tiers and no others. -/
def AllowsEverywhere (tiers : Finset Tier) (s : SimulatorState) : Prop :=
  ∀ id b, s.liveBlocks.get? id = some b → b.allowedTiers = tiers

section AllowsEverywhere

variable {tiers : Finset Tier}

/-- Events whose intent may go to the same tiers keep this of all live blocks. -/
theorem keptBy_allowedTiers (he : e.intent.allowedTiers = tiers) :
    KeptBy (fun b => b.allowedTiers = tiers) e where
  intent := he
  marked := he
  annotated b hb := (annotate_allowedTiers e b).trans hb
  touched _ hb := hb
  retiered a b h ha := (SimulatorState.Retiered.allowedTiers a b h).trans ha
  aged a b h ha := (SimulatorState.Aged.allowedTiers a b h).trans ha

/-- Each displacement finds a tier other than HBM. -/
theorem eachVictim_hasFallback {currentStep : ℤ} (hother : ∃ tier ∈ tiers, tier ≠ .hbm) (fuel : ℕ)
    (hs : s.Consistent) (hall : AllowsEverywhere tiers s) :
    EachVictim sim order HasFallback currentStep fuel s := by
  induction fuel generalizing s with
  | zero => trivial
  | succ fuel ih =>
    unfold EachVictim
    cases hcheck : sim.checkCapacity order s currentStep with
    | displace victim =>
      have hmem := victim_mem_candidates hcheck
      have hframe := displaceVictim_frame sim currentStep hs hmem
      have htiers := hall _ _ (SetOrder.get?_of_mem_candidates hs hmem).2
      have hkept : AllowsEverywhere tiers (sim.displaceVictim order s victim currentStep).1 := by
        intro id b' hb'
        obtain ⟨b, hb, hab⟩ := hframe.retiered.of_some hb'
        exact (SimulatorState.Retiered.allowedTiers b b' hab).trans (hall id b hb)
      refine ⟨?_, ih (hframe.consistent hs) hkept⟩
      unfold HasFallback
      rw [htiers]
      exact hother
    | fits => trivial
    | allPinned => trivial
    | noVictim => trivial

theorem keepsTiersAllowed_of_everywhere (hs : s.Consistent) (hall : AllowsEverywhere tiers s)
    (hhbm : .hbm ∈ tiers) (hother : ∃ tier ∈ tiers, tier ≠ .hbm) (he : e.intent.allowedTiers = tiers) :
    KeepsTiersAllowed sim order s e where
  missed _ _ := by
    have htiers := (keptBy_allowedTiers he).accessedBlock hall
    have hstored : ((s.liveBlocks.get? e.objectId).getD e.intent).allowedTiers = tiers := htiers
    rw [hstored]
    exact hhbm
  prefetched _ := by
    rw [he]
    exact hhbm
  displaced _ ht := eachVictim_hasFallback hother _ (capacityEntry_consistent hs ht)
    (capacityEntry_eachBlock (keptBy_allowedTiers he) hs hall ht)

variable (sim order) in
/-- A trace whose intents all allow HBM and some other tier, and the same tiers, is simulated without
raising. -/
theorem run_total_of_everywhere {events : List MemoryIntentEvent} (hhbm : .hbm ∈ tiers)
    (hother : ∃ tier ∈ tiers, tier ≠ .hbm) (he : ∀ e ∈ events, e.intent.allowedTiers = tiers) :
    ∃ s result, sim.run order SimulatorState.initial events = .ok (s, result) := by
  have hkeeps : Replay.Meets (sim.runEvent order) (KeepsTiersAllowed sim order) SimulatorState.initial events := by
    refine .of_forall_before fun pre e post s hsplit hpre => ?_
    have hmem : ∀ e' ∈ pre ++ [e], e'.intent.allowedTiers = tiers := fun e' he' => he e' (by
      rw [hsplit]
      simp only [List.mem_append, List.mem_cons] at he' ⊢
      tauto)
    have hall : AllowsEverywhere tiers s :=
      replay_eachBlock (fun e' he' => keptBy_allowedTiers (hmem e' (by simp [he']))) hpre
    exact keepsTiersAllowed_of_everywhere (replay_consistent SimulatorState.consistent_initial hpre) hall
      hhbm hother (hmem e (by simp))
  obtain ⟨s, hs, -, -⟩ := replay_total hkeeps
  exact ⟨s, _, run_of_replay hs⟩

end AllowsEverywhere

end KVMemorySimulator

end KVMemoryIntent
