-- SUMMARY: The suite that compares the deadline policy with the speculative one: what its figures say and what they cannot show.
import KVDeadlineScheduler.Simulator.ElapsedTime
import KVDeadlineScheduler.Simulator.Relabelling
import KVDeadlineScheduler.Speculative.Fates

/-!
# The speculative policy suite

The suite simulates one lifecycle trace under two policies. The speculative policy
inherits the placement of the deadline policy, and its own counters were filled while
the trace was generated, before any simulation.
-/

namespace KVMemoryIntent

/-! ## The suite -/

/-- The policy as the simulator sees it: only the name is its own. -/
def SpeculativeIntentPolicy.placement : PlacementPolicy :=
  IntentAwarePolicy.subclass "SpeculativeIntent" DeadlineAwarePolicy.evictionScore
    DeadlineAwarePolicy.shouldPrefetch DeadlineAwarePolicy.explainVictimChoice

structure SpeculativeBenchmarkResult where
  policyName : String
  simulation : SimulationResult
  committedBlocks : ℕ
  freedRejectedBlocks : ℕ
  wastedHbmMbOnRejectedDrafts : ℚ
  deriving DecidableEq

/-- The entries of `policies`. -/
inductive SuitePolicy where
  | deadline
  | speculative
  deriving DecidableEq

def SuitePolicy.placement : SuitePolicy → Except Failure PlacementPolicy
  | .deadline => policyFromName "deadline"
  | .speculative => .ok SpeculativeIntentPolicy.placement

section Suite

variable (orders : SuitePolicy → SetOrder) (hbmCapacityBytes dramCapacityBytes : ℤ)

/-- One round of the loop over the policies. -/
def runSuitePolicy (events : List MemoryIntentEvent) (baseline : SpeculativeIntentPolicy)
    (policy : SuitePolicy) : Except Failure SpeculativeBenchmarkResult := do
  let placement ← policy.placement
  let simulator : KVMemorySimulator :=
    { policy := placement
      hbmCapacityBytes := hbmCapacityBytes
      dramCapacityBytes := dramCapacityBytes }
  let (_, simulation) ← simulator.run (orders policy) .initial events
  .ok
    { policyName := placement.name
      simulation := simulation
      committedBlocks := events.countP fun e => e.eventType = .committed
      freedRejectedBlocks := events.countP fun e => e.eventType = .freed
      wastedHbmMbOnRejectedDrafts :=
        -- the counters are those of the policy that generated the trace
        if policy = .speculative then baseline.wastedHbmMbOnRejectedDrafts else 0 }

def runSpeculativePolicySuite (gauss random : ℕ → ℚ) (treeWidth : ℤ := 4) (treeDepth : ℤ := 3) :
    Except LifecycleFailure (List SpeculativeBenchmarkResult) := do
  let (_, events, baseline) ← generateSpeculativeLifecycleTrace gauss random treeWidth treeDepth
  [SuitePolicy.deadline, .speculative].mapM fun policy =>
    (runSuitePolicy orders hbmCapacityBytes dramCapacityBytes events baseline policy).mapError .refused

end Suite

/-! ## What rejection is counted as -/

/-- The size of every draft. -/
def draftBytes : ℤ := 256 * 1024

/-- The blocks have the size of a draft, and the policy has counted that size for each
block it has freed. -/
structure Priced (policy : SpeculativeIntentPolicy) (blocks : CurrentBlocks) : Prop where
  wasted : policy.wastedHbmMbOnRejectedDrafts = policy.draftBlocksFreedOnRejection / 4
  size : ∀ id block, blocks.get? id = some block → block.1.sizeBytes = draftBytes

namespace Priced

variable {policy policy' : SpeculativeIntentPolicy} {blocks blocks' : CurrentBlocks}

theorem rejectNode (h : Priced policy blocks) (node : DraftNode) :
    Priced (KVMemoryIntent.rejectNode (policy, blocks) node).1
      (KVMemoryIntent.rejectNode (policy, blocks) node).2 := by
  cases hget : blocks.get? node.kvObjectId with
  | none =>
    simp only [KVMemoryIntent.rejectNode, hget]
    exact h
  | some current =>
    simp only [KVMemoryIntent.rejectNode, hget]
    refine ⟨?_, fun id block hblock => ?_⟩
    · have hsize : current.1.sizeBytes = draftBytes := h.size _ _ hget
      rw [h.wasted, hsize, draftBytes]
      push_cast
      ring
    · rw [OrderedDict.get?_erase] at hblock
      split at hblock
      · cases hblock
      · exact h.size id block hblock

theorem rejectNodes (h : Priced policy blocks) (nodes : List DraftNode) :
    Priced (nodes.foldl KVMemoryIntent.rejectNode (policy, blocks)).1
      (nodes.foldl KVMemoryIntent.rejectNode (policy, blocks)).2 := by
  induction nodes generalizing policy blocks with
  | nil => exact h
  | cons node nodes ih => exact ih (h.rejectNode node)

theorem acceptNode {node : DraftNode} (h : Priced policy blocks)
    (haccept : KVMemoryIntent.acceptNode blocks node = .ok blocks') : Priced policy blocks' := by
  unfold KVMemoryIntent.acceptNode at haccept
  cases hget : blocks.get? node.kvObjectId with
  | none =>
    rw [hget] at haccept
    cases haccept
    exact h
  | some current =>
    rw [hget] at haccept
    obtain ⟨committed, hcommitted, haccept⟩ := Replay.bind_eq_ok.mp haccept
    cases haccept
    refine ⟨h.wasted, fun id block hblock => ?_⟩
    rw [OrderedDict.get?_set] at hblock
    split at hblock
    · cases hblock
      rw [MemoryIntent.validated_fields hcommitted]
      exact h.size _ _ hget
    · exact h.size id block hblock

theorem processVerifyEvent {event : MemoryIntentEvent} {tree : DraftTree} {accepted : Bool}
    (h : Priced policy blocks)
    (hverify : KVMemoryIntent.processVerifyEvent policy event tree accepted blocks = .ok (policy', blocks')) :
    Priced policy' blocks' := by
  obtain ⟨descendants, -, hverify⟩ := Replay.bind_eq_ok.mp hverify
  split at hverify
  · obtain ⟨accepted, haccepted, hverify⟩ := Replay.bind_eq_ok.mp hverify
    cases hverify
    exact Replay.run_always (P := Priced policy) (fun _ _ _ hs hstep => hs.acceptNode hstep) h haccepted
  · have hrejected := h.rejectNodes ((tree.nodes.get? event.intent.blockId).toList ++ descendants)
    rw [Except.ok.inj hverify] at hrejected
    exact hrejected

end Priced

section Lifecycle

variable {random : ℕ → ℚ} {tree : DraftTree} {children : OrderedDict (Option ℤ) (List ℤ)}
  {st st' : LifecycleState}

theorem mapError_refused_eq_ok {α : Type} {x : Except Failure α} {a : α}
    (h : x.mapError LifecycleFailure.refused = .ok a) : x = .ok a :=
  Replay.mapError_eq_ok.mp h

/-- An event is about blocks, and changes none. -/
theorem emit_blocks {eventType : EventType} {intent : ValidIntent} {reason : String}
    (h : st.emit eventType intent reason = .ok st') :
    st'.policy = st.policy ∧ st'.currentBlocks = st.currentBlocks := by
  obtain ⟨checked, -, h⟩ := Replay.bind_eq_ok.mp h
  obtain ⟨event, -, h⟩ := Replay.bind_eq_ok.mp h
  cases h
  exact ⟨rfl, rfl⟩

theorem freeSubtree_priced {intents : List ValidIntent} (hst : Priced st.policy st.currentBlocks)
    (h : freeSubtree st intents = .ok st') : Priced st'.policy st'.currentBlocks := by
  refine Replay.run_always (P := fun st : LifecycleState => Priced st.policy st.currentBlocks) ?_ hst h
  intro s intent t hs hstep
  obtain ⟨hpolicy, hblocks⟩ := emit_blocks hstep
  rwa [hpolicy, hblocks]

theorem verifyNode_priced {nodeId : ℤ} {node : DraftNode} {current : ValidIntent} {accepted : Bool}
    {doomed : List ValidIntent} (hst : Priced st.policy st.currentBlocks)
    (h : verifyNode random tree st nodeId node current = .ok (accepted, doomed, st')) :
    Priced st'.policy st'.currentBlocks := by
  obtain ⟨intent, -, h⟩ := Replay.bind_eq_ok.mp h
  obtain ⟨event, -, h⟩ := Replay.bind_eq_ok.mp h
  obtain ⟨descendants, -, h⟩ := Replay.bind_eq_ok.mp h
  obtain ⟨⟨policy, blocks⟩, hprocess, h⟩ := Replay.bind_eq_ok.mp h
  cases h
  exact hst.processVerifyEvent hprocess

/-- The recursion: a node is verified, and its children are resolved or its subtree freed. -/
theorem resolve_priced {fuel : ℕ} {nodeId : ℤ} (hst : Priced st.policy st.currentBlocks)
    (h : resolve random tree children fuel st nodeId = .ok st') : Priced st'.policy st'.currentBlocks := by
  induction fuel generalizing st nodeId st' with
  | zero => cases h
  | succ fuel ih =>
    unfold resolve at h
    split at h
    · cases h
    split at h
    · cases h
      exact hst
    · obtain ⟨⟨accepted, doomed, verified⟩, hverify, h⟩ := Replay.bind_eq_ok.mp h
      have hverified : Priced verified.policy verified.currentBlocks :=
        verifyNode_priced hst (mapError_refused_eq_ok hverify)
      dsimp only at h
      split at h
      · split at h
        · cases h
        · obtain ⟨next, hemit, h⟩ := Replay.bind_eq_ok.mp h
          obtain ⟨hpolicy, hblocks⟩ := emit_blocks (mapError_refused_eq_ok hemit)
          refine Replay.run_always (P := fun st : LifecycleState => Priced st.policy st.currentBlocks)
            (fun _ _ _ hs hstep => ih hs hstep) ?_ h
          rwa [hpolicy, hblocks]
      · exact freeSubtree_priced hverified (mapError_refused_eq_ok h)

end Lifecycle

/-! ## The blocks of the generator -/

section Generator

variable {gauss : ℕ → ℚ} {treeWidth treeDepth depth : ℤ} {parentId : Option ℤ} {st st' : WorkloadState}

def DraftSized (events : List MemoryIntentEvent) : Prop := ∀ e ∈ events, e.intent.sizeBytes = draftBytes

theorem addNode_sized (hst : DraftSized st.events) (h : addNode gauss treeDepth parentId depth st = .ok st') :
    DraftSized st'.events := by
  obtain ⟨intent, hintent, h⟩ := Replay.bind_eq_ok.mp h
  obtain ⟨allocated, hallocated, h⟩ := Replay.bind_eq_ok.mp h
  obtain ⟨verified, hverified, h⟩ := Replay.bind_eq_ok.mp h
  obtain ⟨accessed, haccessed, h⟩ := Replay.bind_eq_ok.mp h
  cases h
  have hfirst := MemoryIntent.validated_fields hintent
  have hsecond := MemoryIntent.validated_fields hverified
  intro e he
  rcases List.mem_append.mp he with he | he
  · exact hst e he
  · simp only [List.mem_cons, List.not_mem_nil, or_false] at he
    rcases he with rfl | rfl
    · rw [(MemoryIntentEvent.postInit_ok hallocated).2.2, hfirst]
      rfl
    · rw [(MemoryIntentEvent.postInit_ok haccessed).2.2, hsecond, hfirst]
      rfl

theorem growTree_sized {fuel : ℕ} (hst : DraftSized st.events)
    (h : growTree gauss treeWidth treeDepth fuel st = .ok st') : DraftSized st'.events := by
  induction fuel generalizing st with
  | zero => cases h
  | succ fuel ih =>
    unfold growTree at h
    split at h
    · cases h
      exact hst
    · split at h
      · refine ih ?_ h
        exact hst
      · obtain ⟨grown, hchildren, h⟩ := Replay.bind_eq_ok.mp h
        refine ih ?_ h
        refine Replay.run_always (P := fun st : WorkloadState => DraftSized st.events) ?_ ?_ hchildren
        · exact fun _ _ _ hs hstep => addNode_sized hs hstep
        · exact hst

theorem generateSpeculativeWorkload_sized {tree : DraftTree} {events : List MemoryIntentEvent}
    (h : generateSpeculativeWorkload gauss treeWidth treeDepth = .ok (tree, events)) : DraftSized events := by
  obtain ⟨st, hgrow, h⟩ := Replay.bind_eq_ok.mp h
  cases h
  refine growTree_sized ?_ hgrow
  simp [DraftSized]

theorem initialBlocks_sized {events : List MemoryIntentEvent} (h : DraftSized events) (id : String)
    (block : ValidIntent) (hget : (initialBlocks events).get? id = some block) :
    block.1.sizeBytes = draftBytes := by
  induction events using List.reverseRecOn with
  | nil => cases hget
  | append_singleton events e ih =>
    rw [initialBlocks, List.foldl_append, List.foldl_cons, List.foldl_nil, OrderedDict.get?_set] at hget
    split at hget
    · cases hget
      exact h e (by simp)
    · exact ih (fun e' he' => h e' (by simp [he'])) hget

/-- The policy has counted a quarter of a megabyte for each block it has freed. -/
theorem lifecycle_wasted {random : ℕ → ℚ} {tree : DraftTree} {events : List MemoryIntentEvent}
    {policy : SpeculativeIntentPolicy}
    (h : generateSpeculativeLifecycleTrace gauss random treeWidth treeDepth = .ok (tree, events, policy)) :
    policy.wastedHbmMbOnRejectedDrafts = policy.draftBlocksFreedOnRejection / 4 := by
  obtain ⟨⟨tree', base⟩, hgenerate, h⟩ := Replay.bind_eq_ok.mp h
  obtain ⟨st, hrun, h⟩ := Replay.bind_eq_ok.mp h
  cases h
  have hsized : DraftSized base := generateSpeculativeWorkload_sized (mapError_refused_eq_ok hgenerate)
  have hstart : Priced {} (initialBlocks base) := ⟨by norm_num, initialBlocks_sized hsized⟩
  exact (Replay.run_always (P := fun st : LifecycleState => Priced st.policy st.currentBlocks)
    (fun _ _ _ hs hstep => resolve_priced hs hstep) hstart hrun).wasted

end Generator

/-! ## Comparing the simulations -/

namespace KVMemorySimulator

open SimulatorState

section Tiers

variable {sim : KVMemorySimulator} {order : SetOrder} {tiers : Finset Tier} {s : SimulatorState}

/-- Blocks that may all go to the same two tiers make the set order irrelevant. -/
theorem run_same_of_tiers (hp : sim.policy.AccessBased ∨ sim.policy.IntentAware)
    {events : List MemoryIntentEvent} (hone : (tiers.erase .hbm).card ≤ 1)
    (he : ∀ e ∈ events, e.intent.allowedTiers = tiers) (order' : SetOrder) :
    Replay.Agree (fun r r' => SameUpToReasons r.1 r'.1 ∧ r.2 = r'.2)
      (sim.run order SimulatorState.initial events) (sim.run order' SimulatorState.initial events) := by
  refine (run_order_independent hp order' (.of_forall_before fun pre e post s hsplit hpre => ?_)).2
  have hmem : ∀ e' ∈ pre ++ [e], e'.intent.allowedTiers = tiers := fun e' he' => he e' (by
    rw [hsplit]
    simp only [List.mem_append, List.mem_cons] at he' ⊢
    tauto)
  have hall : AllowsEverywhere tiers s :=
    replay_eachBlock (fun e' he' => keptBy_allowedTiers (hmem e' (by simp [he']))) hpre
  exact victimsMeet_oneFallback hone (replay_consistent SimulatorState.consistent_initial hpre) hall
    (hmem e (by simp))

end Tiers

theorem simulator_named (hbmCapacityBytes dramCapacityBytes : ℤ) :
    (Relabelling.named "SpeculativeIntent").simulator
        { policy := DeadlineAwarePolicy
          hbmCapacityBytes := hbmCapacityBytes
          dramCapacityBytes := dramCapacityBytes } =
      { policy := SpeculativeIntentPolicy.placement
        hbmCapacityBytes := hbmCapacityBytes
        dramCapacityBytes := dramCapacityBytes } := by
  have hunit : ∀ bytes : ℤ, (Relabelling.named "SpeculativeIntent").unit * bytes = bytes := one_mul
  simp only [Relabelling.simulator, hunit]
  rfl

end KVMemorySimulator

/-! ## The figures of the suite -/

section Figures

open KVMemorySimulator

variable {tree : DraftTree} {base new : List MemoryIntentEvent} {count : ℕ}

theorem Fates.length_eq (hfates : Fates tree {id | id ∈ tree.nodes.keys} new) :
    new.length = tree.nodes.keys.length := by
  have hkeys : tree.nodes.keys.Nodup := tree.nodes.nodup
  have hperm : (new.map fun e => e.intent.blockId).Perm tree.nodes.keys :=
    (List.perm_ext_iff_of_nodup hfates.once hkeys).mpr hfates.complete
  rw [← hperm.length_eq, List.length_map]

/-- Every node has met one of the two fates. -/
theorem Fates.count_add (hfates : Fates tree {id | id ∈ tree.nodes.keys} new) :
    (new.countP fun e => e.eventType = .committed) + (new.countP fun e => e.eventType = .freed) =
      tree.nodes.keys.length := by
  have hother : (new.countP fun e => e.eventType = .freed) =
      new.countP fun e => decide ¬decide (e.eventType = .committed) = true := by
    refine List.countP_congr fun e he => ?_
    rcases hfates.fate e he with htype | htype <;> simp [htype]
  rw [hother, ← hfates.length_eq]
  exact (List.length_eq_countP_add_countP _).symm

/-- The trace names the objects of the nodes, and no others. -/
theorem Drafted.totalBlocks (hdrafted : Drafted tree base count)
    (hfates : Fates tree {id | id ∈ tree.nodes.keys} new) :
    ((base ++ new).map MemoryIntentEvent.objectId).toFinset.card = tree.nodes.keys.length := by
  have hobjects : ((base ++ new).map MemoryIntentEvent.objectId).toFinset =
      (tree.nodes.keys.map draftObjectId).toFinset := by
    ext objectId
    simp only [List.mem_toFinset, List.mem_map]
    constructor
    · rintro ⟨e, he, rfl⟩
      rcases List.mem_append.mp he with he | he
      · exact ⟨_, (hdrafted.drafts e he).2, (hdrafted.drafts e he).1.objectId.symm⟩
      · exact ⟨_, hfates.mem_settled he, (hfates.block e he).1.symm⟩
    · rintro ⟨id, hid, rfl⟩
      obtain ⟨e, he, hblock⟩ := List.mem_map.mp ((hfates.complete id).mpr hid)
      exact ⟨e, List.mem_append_right base he, by rw [(hfates.block e he).1, hblock]⟩
  have hdistinct : (tree.nodes.keys.map draftObjectId).Nodup :=
    List.Nodup.map draftObjectId_injective tree.nodes.nodup
  rw [hobjects, List.toFinset_card_of_nodup hdistinct, List.length_map]

/-- All draft blocks may go to HBM and to DRAM. -/
theorem Drafted.allowedTiers (hdrafted : Drafted tree base count)
    (hfates : Fates tree {id | id ∈ tree.nodes.keys} new) :
    ∀ e ∈ base ++ new, e.intent.allowedTiers = {.hbm, .dram} := by
  intro e he
  rcases List.mem_append.mp he with he | he
  · exact (hdrafted.drafts e he).1.allowedTiers
  · exact (hfates.block e he).2

/-- Under the speculative policy a draft trace is simulated as under the deadline policy,
whatever the set orders. -/
theorem speculative_as_deadline {events : List MemoryIntentEvent} {order : SetOrder} (order' : SetOrder)
    (htiers : ∀ e ∈ events, e.intent.allowedTiers = {.hbm, .dram}) {hbmCapacityBytes dramCapacityBytes : ℤ}
    {s : SimulatorState} {result : SimulationResult}
    (hrun : KVMemorySimulator.run
      { policy := DeadlineAwarePolicy
        hbmCapacityBytes := hbmCapacityBytes
        dramCapacityBytes := dramCapacityBytes } order .initial events = .ok (s, result)) :
    ∃ s', KVMemorySimulator.run
        { policy := SpeculativeIntentPolicy.placement
          hbmCapacityBytes := hbmCapacityBytes
          dramCapacityBytes := dramCapacityBytes } order' .initial events =
      .ok (s', { result with policyName := "SpeculativeIntent" }) := by
  have hone : (({.hbm, .dram} : Finset Tier).erase .hbm).card ≤ 1 := by decide
  have hname : policyFromName "deadline" = .ok DeadlineAwarePolicy := rfl
  -- the other order, the other name, and the order of the other run
  obtain ⟨⟨t, result⟩, hrun, -, rfl⟩ :=
    (run_same_of_tiers (.inr PlacementPolicy.intentAware_deadline) hone htiers
      SetOrder.fastestFirst).of_ok hrun
  have halike : (Relabelling.named "SpeculativeIntent").TiersAlike SetOrder.fastestFirst
      SetOrder.fastestFirst := fun _ _ _ => rfl
  obtain ⟨⟨t', result'⟩, hrun', -, rfl⟩ := (run_relabelled (Relabelling.named "SpeculativeIntent") hname
    halike SimulatorState.consistent_initial events).of_ok hrun
  rw [simulator_named, Relabelling.state_initial, List.map_congr_left fun e _ => Relabelling.event_named e,
    List.map_id'] at hrun'
  obtain ⟨⟨t'', result''⟩, hrun'', -, rfl⟩ :=
    (run_same_of_tiers (.inr (.subclass ..)) hone htiers order').of_ok hrun'
  exact ⟨t'', by rw [hrun'', Relabelling.result_named]⟩

/-- The two rows of the suite show the same simulation under two names, whatever the
capacities. Committed and freed blocks add up to the drafts, and the waste is a quarter of
a megabyte for each freed block in the speculative row, and nothing in the other. -/
theorem suite_shows_one_simulation {gauss : ℕ → ℚ} {treeWidth treeDepth : ℤ} (random : ℕ → ℚ)
    (orders : SuitePolicy → SetOrder) (hbmCapacityBytes dramCapacityBytes : ℤ)
    (h : generateSpeculativeWorkload gauss treeWidth treeDepth = .ok (tree, base)) :
    ∃ (simulation : SimulationResult) (committed freed : ℕ),
      runSpeculativePolicySuite orders hbmCapacityBytes dramCapacityBytes gauss random treeWidth treeDepth =
        .ok
          [⟨"KVDeadline", { simulation with policyName := "KVDeadline" }, committed, freed, 0⟩,
            ⟨"SpeculativeIntent", { simulation with policyName := "SpeculativeIntent" }, committed, freed,
              freed / 4⟩] ∧
        committed + freed = tree.nodes.keys.length ∧ simulation.totalBlocks = tree.nodes.keys.length := by
  obtain ⟨nodes, hdrafted⟩ := generateSpeculativeWorkload_drafted h
  obtain ⟨new, policy, htrace, hfates, hfreed⟩ := lifecycle_ok hdrafted random h
  have htiers := hdrafted.allowedTiers hfates
  have hcount : ∀ eventType, (eventType = .committed ∨ eventType = .freed) →
      ((base ++ new).countP fun e => e.eventType = eventType) = new.countP fun e => e.eventType = eventType := by
    intro eventType htype
    rw [List.countP_append, Nat.add_eq_right, List.countP_eq_zero]
    intro e he
    have hundecided := hdrafted.undecided e he
    rcases htype with rfl | rfl <;> simp [hundecided]
  have hwasted : policy.wastedHbmMbOnRejectedDrafts =
      ((base ++ new).countP fun e => e.eventType = .freed : ℕ) / 4 := by
    rw [lifecycle_wasted htrace, hfreed, hcount _ (.inr rfl)]
  obtain ⟨s, simulation, hrun, -⟩ := hdrafted.replay hfates
    { policy := DeadlineAwarePolicy
      hbmCapacityBytes := hbmCapacityBytes
      dramCapacityBytes := dramCapacityBytes } (orders .deadline)
  obtain ⟨s', hrun'⟩ := speculative_as_deadline (orders .speculative) htiers hrun
  obtain ⟨-, hreport⟩ := run_ok hrun
  have hsimulation : simulation = { simulation with policyName := "KVDeadline" } := by
    rw [hreport]
    rfl
  refine ⟨simulation, (base ++ new).countP fun e => e.eventType = .committed,
    (base ++ new).countP fun e => e.eventType = .freed, ?_, ?_, ?_⟩
  · have hdeadline : runSuitePolicy orders hbmCapacityBytes dramCapacityBytes (base ++ new) policy .deadline =
        .ok ⟨"KVDeadline", simulation, (base ++ new).countP fun e => e.eventType = .committed,
          (base ++ new).countP fun e => e.eventType = .freed, 0⟩ :=
      Replay.bind_eq_ok.mpr ⟨DeadlineAwarePolicy, rfl, Replay.bind_eq_ok.mpr ⟨_, hrun, rfl⟩⟩
    have hspeculative : runSuitePolicy orders hbmCapacityBytes dramCapacityBytes (base ++ new) policy
          .speculative =
        .ok ⟨"SpeculativeIntent", { simulation with policyName := "SpeculativeIntent" },
          (base ++ new).countP fun e => e.eventType = .committed,
          (base ++ new).countP fun e => e.eventType = .freed,
          ((base ++ new).countP fun e => e.eventType = .freed : ℕ) / 4⟩ := by
      refine Replay.bind_eq_ok.mpr ⟨_, rfl, Replay.bind_eq_ok.mpr ⟨_, hrun', ?_⟩⟩
      rw [← hwasted]
      rfl
    rw [runSpeculativePolicySuite, htrace]
    simp only [bind, Except.bind, List.mapM_cons, List.mapM_nil, hdeadline, hspeculative,
      Except.mapError, pure, Except.pure]
    rw [← hsimulation]
  · rw [hcount _ (.inl rfl), hcount _ (.inr rfl)]
    exact hfates.count_add
  · rw [hreport]
    exact hdrafted.totalBlocks hfates

/-- Three roots with three children each, and every other draw accepts. -/
theorem suite_shows_one_simulation_two_levels :
    ∃ (simulation : SimulationResult) (committed freed : ℕ),
      runSpeculativePolicySuite (fun _ => SetOrder.fastestFirst) 1000000 2000000 (fun _ => 7 / 10)
          (fun n : ℕ => if n % 2 = 0 then 0 else 1) 3 2 =
        .ok
          [⟨"KVDeadline", { simulation with policyName := "KVDeadline" }, committed, freed, 0⟩,
            ⟨"SpeculativeIntent", { simulation with policyName := "SpeculativeIntent" }, committed, freed,
              freed / 4⟩] ∧
        committed + freed = 12 ∧ simulation.totalBlocks = 12 := by
  have hsize : (generateSpeculativeWorkload (fun _ => 7 / 10) 3 2).toOption.map
      (fun result => result.1.nodes.keys.length) = some 12 := by decide +kernel
  have hshape : (2 : ℤ) ≤ 11 ∨ (3 : ℤ) ≤ 0 := by omega
  obtain ⟨tree, base, h⟩ := generateSpeculativeWorkload_total (fun _ => 7 / 10) hshape
  rw [h] at hsize
  have hnodes : tree.nodes.keys.length = 12 := Option.some.inj hsize
  rw [← hnodes]
  exact suite_shows_one_simulation _ _ _ _ h

end Figures

end KVMemoryIntent
