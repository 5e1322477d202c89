-- SUMMARY: Reconciliation of the counters with the decision log: each counter equals its log entries plus the events that bump it directly.
import KVDeadlineScheduler.Simulator.Latency

/-!
# Counters and decision log

Some branches of `run` bump a counter together with a log entry, others bump it
alone. `Counter.balance` is how far a counter is ahead of the log. The capacity
loop leaves every balance alone, and an event raises it when it bumps the counter
directly, so after a run the balance is the number of such events.
-/

namespace KVMemoryIntent

/-! ## Counters -/

/-- The counters that the decision log accounts for. -/
inductive Counter where
  | eviction
  | spill
  | prefetch
  | pinnedExhaustion
  | decodeCriticalEviction

/-- The entry reports a displacement. -/
def DecisionRecord.displaces (r : DecisionRecord) : Bool := r.action = .spill ∨ r.action = .evict

/-- The entry reports a displacement of a block that was decode-critical. -/
def DecisionRecord.displacesDecodeCritical (r : DecisionRecord) : Bool :=
  (r.action = .spill ∨ r.action = .evict) ∧ (r.victimPriority = some .decodeCritical ∨ r.victimPhase = some .decode)

/-- The event has the given type and names a live block that satisfies `q`. -/
def namesLive (type : EventType) (q : MemoryIntent → Bool) (s : SimulatorState)
    (e : MemoryIntentEvent) : Bool :=
  e.eventType = type ∧ (s.liveBlocks.get? e.objectId).any q

namespace Counter

def value : Counter → SimulatorState → ℕ
  | .eviction, s => s.evictionCount
  | .spill, s => s.spillCount
  | .prefetch, s => s.prefetchCount
  | .pinnedExhaustion, s => s.pinnedCapacityExhaustionEvents
  | .decodeCriticalEviction, s => s.decodeCriticalEvictions

/-- The log entries that go with the counter. -/
def logs : Counter → DecisionRecord → Bool
  | .eviction, r => r.displaces
  | .spill, r => r.action = .spill
  | .prefetch, r => r.action = .prefetch
  | .pinnedExhaustion, r => r.action = .capacityExhausted
  | .decodeCriticalEviction, r => r.displacesDecodeCritical

/-- The events that bump the counter without an entry. -/
def bumps : Counter → SimulatorState → MemoryIntentEvent → Bool
  | .eviction => namesLive .evicted (fun _ => true)
  | .spill => namesLive .spilled (fun block => .dram ∈ block.allowedTiers)
  | .decodeCriticalEviction => namesLive .evicted MemoryIntent.isDecodeCritical
  | .prefetch | .pinnedExhaustion => fun _ _ => false

/-- How far the counter is ahead of the log. -/
def balance (c : Counter) (s : SimulatorState) : ℤ := c.value s - s.decisionLog.countP c.logs

variable {c : Counter} {s s' : SimulatorState}

theorem balance_append {r : DecisionRecord} (hlog : s'.decisionLog = s.decisionLog ++ [r]) :
    c.balance s' = c.balance s + (c.value s' - c.value s) - if c.logs r then 1 else 0 := by
  have hcount : s'.decisionLog.countP c.logs =
      s.decisionLog.countP c.logs + if c.logs r then 1 else 0 := by
    rw [hlog, List.countP_append, List.countP_singleton]
  rw [balance, balance, hcount]
  push_cast
  ring

/-- A counter bumped along with its log entry. -/
theorem balance_logged {r : DecisionRecord} (hlog : s'.decisionLog = s.decisionLog ++ [r])
    (hvalue : c.value s' = c.value s + if c.logs r then 1 else 0) : c.balance s' = c.balance s := by
  rw [balance_append hlog, hvalue]
  push_cast
  ring

end Counter

namespace KVMemorySimulator

variable {sim : KVMemorySimulator} {order : SetOrder} {s s' t : SimulatorState}
  {e : MemoryIntentEvent} {latency : ℤ}

/-! ## The capacity loop -/

/-- The log shows whether the victim was decode-critical. -/
theorem displacesDecodeCritical_decisionRecord {currentStep : ℤ} {action : DecisionAction}
    {victim : MemoryIntent} {reason : String} {avoided : Bool}
    (haction : action = .spill ∨ action = .evict) :
    (sim.decisionRecord currentStep action victim reason avoided).displacesDecodeCritical =
      victim.isDecodeCritical := by
  simp [DecisionRecord.displacesDecodeCritical, decisionRecord, haction, MemoryIntent.isDecodeCritical]

/-- A displacement that logs `action` bumps the counters of that entry. -/
theorem countDisplaced_balance (c : Counter) {victim : MemoryIntent} {r : DecisionRecord}
    (hlog : s'.decisionLog = s.decisionLog ++ [r]) (hdisplaces : r.displaces = true)
    (hcritical : r.displacesDecodeCritical = victim.isDecodeCritical)
    (hevictions : s'.evictionCount = (countDisplaced s victim).evictionCount)
    (hdce : s'.decodeCriticalEvictions = (countDisplaced s victim).decodeCriticalEvictions)
    (hspills : s'.spillCount = s.spillCount + if r.action = .spill then 1 else 0)
    (hprefetches : s'.prefetchCount = s.prefetchCount)
    (hpinned : s'.pinnedCapacityExhaustionEvents = s.pinnedCapacityExhaustionEvents) :
    c.balance s' = c.balance s := by
  have haction : r.action = .spill ∨ r.action = .evict := by
    simpa [DecisionRecord.displaces] using hdisplaces
  apply Counter.balance_logged hlog
  cases c with
  | eviction => simpa [Counter.value, Counter.logs, hdisplaces, countDisplaced] using hevictions
  | spill => simpa [Counter.value, Counter.logs] using hspills
  | prefetch =>
    have hnot : r.action ≠ .prefetch := by rcases haction with h | h <;> simp [h]
    simpa [Counter.value, Counter.logs, hnot] using hprefetches
  | pinnedExhaustion =>
    have hnot : r.action ≠ .capacityExhausted := by rcases haction with h | h <;> simp [h]
    simpa [Counter.value, Counter.logs, hnot] using hpinned
  | decodeCriticalEviction =>
    simp only [Counter.value, Counter.logs, hcritical, hdce, countDisplaced]
    split <;> rfl

/-- The record of the usage is no counter. -/
@[simp] theorem recordUsage_balance (c : Counter) : c.balance s.recordUsage = c.balance s := by
  cases c <;> rfl

theorem displaceVictim_balance (c : Counter) {victim : MemoryIntent} {currentStep : ℤ} :
    c.balance (sim.displaceVictim order s victim currentStep).1 = c.balance s := by
  obtain ⟨reason, avoided, ⟨-, h⟩ | ⟨-, h⟩⟩ := displaceVictim_cases sim order s victim currentStep <;> rw [h]
  · exact countDisplaced_balance c rfl rfl (displacesDecodeCritical_decisionRecord (.inl rfl))
      rfl rfl rfl rfl rfl
  · exact countDisplaced_balance c rfl rfl (displacesDecodeCritical_decisionRecord (.inr rfl))
      rfl rfl rfl rfl rfl

theorem recordPinnedExhaustion_balance (c : Counter) {currentStep : ℤ} :
    c.balance (sim.recordPinnedExhaustion s currentStep) = c.balance s := by
  apply Counter.balance_logged (r := sim.exhaustionRecord currentStep) rfl
  cases c <;> rfl

theorem recordExhaustion_balance (c : Counter) : c.balance (recordExhaustion s) = c.balance s := by
  cases c <;> rfl

/-- The loop bumps no counter without its log entry. -/
theorem CapacityRun.balance {C : SimulatorState → MemoryIntent → Prop} {currentStep : ℤ} (c : Counter)
    (h : CapacityRun sim order currentStep C s latency s') : c.balance s' = c.balance s := by
  induction h with
  | fits => rfl
  | allPinned => exact recordPinnedExhaustion_balance c
  | noVictim => exact recordExhaustion_balance c
  | displace _ _ _ ih => rw [ih, displaceVictim_balance]

/-! ## Events and runs -/

theorem namesLive_eq_false {type : EventType} {q : MemoryIntent → Bool} (h : e.eventType ≠ type) :
    namesLive type q s e = false := by
  simp [namesLive, h]

/-- An event of another type than EVICTED and SPILLED bumps no counter directly. -/
theorem bumps_eq_false (c : Counter) (hevicted : e.eventType ≠ .evicted)
    (hspilled : e.eventType ≠ .spilled) : c.bumps s e = false := by
  cases c with
  | eviction => exact namesLive_eq_false hevicted
  | spill => exact namesLive_eq_false hspilled
  | decodeCriticalEviction => exact namesLive_eq_false hevicted
  | prefetch => rfl
  | pinnedExhaustion => rfl

/-- An event that changes nothing bumps no counter. -/
theorem Ignored.bumps (c : Counter) (h : Ignored s e) : c.bumps s e = false := by
  cases h with
  | miss htype => exact bumps_eq_false c (by simp [htype]) (by simp [htype])
  | unknown htype hget => cases c <;> simp [Counter.bumps, namesLive, hget]
  | spillDenied htype hget hdenied => cases c <;> simp [Counter.bumps, namesLive, hget, htype, hdenied]
  | resident htype => exact bumps_eq_false c (by simp [htype]) (by simp [htype])

theorem storeSpilled_balance (c : Counter) {existing : MemoryIntent} (htype : e.eventType = .spilled)
    (hget : s.liveBlocks.get? e.objectId = some existing) (hallowed : .dram ∈ existing.allowedTiers) :
    c.balance (storeSpilled s { existing with currentTier := .dram }) =
      c.balance s + if c.bumps s e then 1 else 0 := by
  cases c <;> simp [Counter.balance, Counter.value, Counter.bumps, namesLive, storeSpilled, htype, hget,
    hallowed]
  ring

theorem storeEvicted_balance (c : Counter) {existing : MemoryIntent} (htype : e.eventType = .evicted)
    (hget : s.liveBlocks.get? e.objectId = some existing) :
    c.balance (storeEvicted s existing) = c.balance s + if c.bumps s e then 1 else 0 := by
  cases c <;> simp [Counter.balance, Counter.value, Counter.bumps, namesLive, storeEvicted, htype, hget]
  · ring
  · split <;> ring

/-- The prefetch is counted before the loop and logged after it. -/
theorem prefetched_balance {C : SimulatorState → MemoryIntent → Prop} (c : Counter)
    (hrun : CapacityRun sim order e.step C (prefetchedInHbm s e) latency t) {reason : String} :
    c.balance (sim.logDecision t.recordUsage e.step .prefetch e.intent reason false) =
      c.balance s := by
  have hcounted : c.balance (prefetchedInHbm s e) = c.balance s +
      if c.logs (sim.decisionRecord e.step .prefetch e.intent reason false) then 1 else 0 := by
    cases c with
    | prefetch =>
      show ((s.prefetchCount + 1 : ℕ) : ℤ) - _ = s.prefetchCount - _ + 1
      push_cast
      exact add_sub_right_comm _ _ _
    | eviction => exact (add_zero _).symm
    | spill => exact (add_zero _).symm
    | pinnedExhaustion => exact (add_zero _).symm
    | decodeCriticalEviction => exact (add_zero _).symm
  have hvalue : c.value (sim.logDecision t.recordUsage e.step .prefetch e.intent reason false) =
      c.value t := by
    cases c <;> rfl
  rw [Counter.balance_append (s := t) rfl, hvalue, hrun.balance c, hcounted]
  ring

/-- An event raises a balance exactly when it bumps the counter directly. -/
theorem Dispatched.balance {C : SimulatorState → MemoryIntent → Prop} (c : Counter)
    (h : Dispatched sim order C s e t latency) :
    c.balance t = c.balance s + if c.bumps s e then 1 else 0 := by
  have hquiet : ∀ u : SimulatorState, c.balance u = c.balance s → e.eventType ≠ .evicted →
      e.eventType ≠ .spilled → c.balance u = c.balance s + if c.bumps s e then 1 else 0 := by
    intro u hu hevicted hspilled
    simp [hu, bumps_eq_false c hevicted hspilled]
  have hstored : ∀ block, c.balance (storeBlock s e block) = c.balance s := by
    intro block
    cases c <;> rfl
  cases h with
  | @allocatedHbm u _ htype _ hrun =>
    apply hquiet _ _ (by simp [htype]) (by simp [htype])
    rw [recordUsage_balance, hrun.balance c]
    cases c <;> rfl
  | allocatedDram htype =>
    apply hquiet _ _ (by simp [htype]) (by simp [htype])
    cases c <;> rfl
  | allocatedOther htype =>
    apply hquiet _ _ (by simp [htype]) (by simp [htype])
    cases c <;> rfl
  | hit htype =>
    apply hquiet _ _ (by simp [htype]) (by simp [htype])
    rw [recordUsage_balance, hstored]
  | miss htype _ _ hrun =>
    apply hquiet _ _ (by simp [htype]) (by simp [htype])
    rw [recordUsage_balance, hrun.balance c]
    cases c <;> rfl
  | markedUnknown htype => exact hquiet _ (hstored _) (by simp [htype]) (by simp [htype])
  | annotated htype =>
    apply hquiet _ (hstored _) <;> rcases htype with htype | htype | htype <;> simp [htype]
  | spilled htype hget hallowed => exact storeSpilled_balance c htype hget hallowed
  | prefetchDeclined htype => exact hquiet _ (hstored _) (by simp [htype]) (by simp [htype])
  | prefetched haccepted hrun =>
    exact hquiet _ (prefetched_balance c hrun) (by simp [haccepted.1]) (by simp [haccepted.1])
  | evicted htype hget => exact storeEvicted_balance c htype hget
  | freed htype =>
    apply hquiet _ _ (by simp [htype]) (by simp [htype])
    cases c <;> rfl
  | unchanged hignored => simp [hignored.bumps c]

theorem runEvent_balance (c : Counter) (hs : s.Consistent) (h : sim.runEvent order s e = .ok s') :
    c.balance s' = c.balance s + if c.bumps s e then 1 else 0 := by
  obtain ⟨t, latency, hd, -, hsettled⟩ := runEvent_ok hs victimsMeet_true h
  have hsame : c.balance s' = c.balance t := by
    rw [hsettled.eq]
    cases c <;> rfl
  rw [hsame, hd.balance c]

/-- After a run on a fresh simulator a counter is its log entries plus the events
that bumped it directly. -/
theorem replay_balance (c : Counter) {events : List MemoryIntentEvent}
    (h : sim.replay order SimulatorState.initial events = .ok s) :
    c.value s = s.decisionLog.countP c.logs +
      Replay.tally (sim.runEvent order) c.bumps SimulatorState.initial events := by
  have htally : c.balance s = c.balance SimulatorState.initial +
      Replay.tally (sim.runEvent order) c.bumps SimulatorState.initial events :=
    Replay.run_tally (P := SimulatorState.Consistent) (f := c.balance) (p := c.bumps)
      (fun _ _ _ => runEvent_consistent) (fun _ _ _ => runEvent_balance c)
      SimulatorState.consistent_initial h
  have hinitial : c.balance SimulatorState.initial = 0 := by cases c <;> rfl
  rw [hinitial, zero_add, Counter.balance] at htally
  omega

/-! ## Exhaustion -/

/-- Every break of the loop over capacity was for pins. -/
def ExhaustionsPinned (s : SimulatorState) : Prop :=
  s.capacityExhaustionEvents = s.pinnedCapacityExhaustionEvents

/-- The policy names a victim whenever it is shown a block. -/
def NamesVictims (p : PlacementPolicy) : Prop :=
  ∀ blocks capacityBytes currentStep, p.chooseVictim blocks capacityBytes currentStep = none →
    blocks = []

theorem CapacityRun.exhaustionsPinned {C : SimulatorState → MemoryIntent → Prop} {currentStep : ℤ}
    (hnames : NamesVictims sim.policy) (hcapacity : 0 ≤ sim.hbmCapacityBytes)
    (h : CapacityRun sim order currentStep C s latency s') (hs : s.Consistent)
    (hpinned : ExhaustionsPinned s) : ExhaustionsPinned s' := by
  induction h with
  | fits => exact hpinned
  | allPinned => exact congrArg (· + 1) hpinned
  | @noVictim s hcheck =>
    -- no victim means no candidates, and an empty HBM is within its capacity
    obtain ⟨hover, hnone⟩ := checkCapacity_noVictim hcheck
    rw [hbmUsed_eq_zero hs (hnames _ _ _ hnone)] at hover
    omega
  | @displace s s' victim latency hcheck _ _ ih =>
    have hframe := displaceVictim_frame sim currentStep hs (victim_mem_candidates hcheck)
    refine ih (hframe.consistent hs) ?_
    exact displaceVictim_exhaustion.trans (hpinned.trans displaceVictim_pinnedExhaustion.symm)

theorem Dispatched.exhaustionsPinned {C : SimulatorState → MemoryIntent → Prop}
    (hnames : NamesVictims sim.policy) (hcapacity : 0 ≤ sim.hbmCapacityBytes)
    (h : Dispatched sim order C s e t latency) (hs : s.Consistent) (hpinned : ExhaustionsPinned s) :
    ExhaustionsPinned t := by
  cases h with
  | allocatedHbm _ _ hrun =>
    have hloop := hrun.exhaustionsPinned hnames hcapacity (stored_allocatedInHbm.consistent hs) hpinned
    exact hloop
  | miss _ _ _ hrun =>
    have hloop := hrun.exhaustionsPinned hnames hcapacity ((stored_missedInHbm hs).consistent hs) hpinned
    exact hloop
  | prefetched _ hrun =>
    have hloop := hrun.exhaustionsPinned hnames hcapacity (stored_prefetchedInHbm.consistent hs) hpinned
    exact hloop
  | _ => exact hpinned

theorem replay_exhaustionsPinned {events : List MemoryIntentEvent} (hnames : NamesVictims sim.policy)
    (hcapacity : 0 ≤ sim.hbmCapacityBytes)
    (h : sim.replay order SimulatorState.initial events = .ok s) : ExhaustionsPinned s := by
  have hinitial : ExhaustionsPinned SimulatorState.initial := by
    simp [ExhaustionsPinned, SimulatorState.initial]
  refine (Replay.run_always (P := fun s => s.Consistent ∧ ExhaustionsPinned s) ?_
    ⟨SimulatorState.consistent_initial, hinitial⟩ h).2
  rintro s e s' ⟨hs, hpinned⟩ hstep
  obtain ⟨t, latency, hd, -, hsettled⟩ := runEvent_ok hs victimsMeet_true hstep
  have ht := hd.exhaustionsPinned hnames hcapacity hs hpinned
  refine ⟨runEvent_consistent hs hstep, ?_⟩
  rw [hsettled.eq]
  exact ht

theorem namesVictims_of_cases {p : PlacementPolicy} (hp : p.AccessBased ∨ p.IntentAware) :
    NamesVictims p := by
  intro blocks capacityBytes currentStep hnone
  rcases hp with hp | hp
  · exact hp.eq_nil_of_none hnone
  · exact hp.eq_nil_of_none hnone

/-! ## Reconciliation -/

/-- The counters of a run on a fresh simulator against its decision log. -/
theorem counters_reconcile {events : List MemoryIntentEvent} {result : SimulationResult}
    (h : sim.run order SimulatorState.initial events = .ok (s, result)) :
    result.evictionCount =
        s.decisionLog.countP (fun r => r.action = .spill ∨ r.action = .evict) +
          Replay.tally (sim.runEvent order) (namesLive .evicted (fun _ => true))
            SimulatorState.initial events ∧
      result.spillCount =
        s.decisionLog.countP (fun r => r.action = .spill) +
          Replay.tally (sim.runEvent order) (namesLive .spilled (fun block => .dram ∈ block.allowedTiers))
            SimulatorState.initial events ∧
      result.prefetchCount = s.decisionLog.countP (fun r => r.action = .prefetch) ∧
      result.pinnedCapacityExhaustionEvents =
        s.decisionLog.countP (fun r => r.action = .capacityExhausted) ∧
      (sim.policy.AccessBased ∨ sim.policy.IntentAware → 0 ≤ sim.hbmCapacityBytes →
        result.pinnedCapacityExhaustionEvents = result.capacityExhaustionEvents) ∧
      result.decodeCriticalEvictions =
        s.decisionLog.countP (fun r => (r.action = .spill ∨ r.action = .evict) ∧
          (r.victimPriority = some .decodeCritical ∨ r.victimPhase = some .decode)) +
          Replay.tally (sim.runEvent order) (namesLive .evicted MemoryIntent.isDecodeCritical)
            SimulatorState.initial events := by
  obtain ⟨hreplay, rfl⟩ := run_ok h
  have hbalance := fun c : Counter => replay_balance c hreplay
  -- no event bumps these two counters directly
  have hlogged : ∀ {n : ℕ} (m : ℕ), n = m + Replay.tally (sim.runEvent order) (fun _ _ => false)
      SimulatorState.initial events → n = m := by
    intro n m h
    rwa [Replay.tally_false, add_zero] at h
  refine ⟨?_, ?_, ?_, ?_, fun hp hcapacity => ?_, ?_⟩
  · exact hbalance .eviction
  · exact hbalance .spill
  · exact hlogged _ (hbalance .prefetch)
  · exact hlogged _ (hbalance .pinnedExhaustion)
  · exact (replay_exhaustionsPinned (namesVictims_of_cases hp) hcapacity hreplay).symm
  · exact hbalance .decodeCriticalEviction

/-- Two blocks take turns in HBM, then one is spilled and the other evicted by
name. -/
def namedTrace : List MemoryIntentEvent :=
  turnsTrace ++
    [sampleEvent 3 .spilled (sampleIntent "b" {.hbm, .dram} .dram),
      sampleEvent 4 .evicted (sampleIntent "a" {.hbm, .dram} .hbm)]

theorem counters_reconcile_named :
    ∃ s result,
      oneBlockHbm.run SetOrder.fastestFirst SimulatorState.initial namedTrace = .ok (s, result) ∧
      result.evictionCount =
        s.decisionLog.countP (fun r => r.action = .spill ∨ r.action = .evict) +
          Replay.tally (oneBlockHbm.runEvent SetOrder.fastestFirst) (namesLive .evicted (fun _ => true))
            SimulatorState.initial namedTrace ∧
      result.pinnedCapacityExhaustionEvents = result.capacityExhaustionEvents ∧
      result.evictionCount = 3 ∧ result.spillCount = 3 := by
  obtain ⟨⟨s, result⟩, h, hcheck⟩ := Replay.exists_of_check
    (x := oneBlockHbm.run SetOrder.fastestFirst SimulatorState.initial namedTrace)
    (p := fun r => decide (r.2.evictionCount = 3 ∧ r.2.spillCount = 3)) (by decide +kernel)
  obtain ⟨hevictions, -, -, -, hexhaustions, -⟩ := counters_reconcile h
  exact ⟨s, result, h, hevictions, hexhaustions (.inl .lru) (by decide), of_decide_eq_true hcheck⟩

end KVMemorySimulator

end KVMemoryIntent
