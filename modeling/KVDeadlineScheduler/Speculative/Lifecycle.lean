-- SUMMARY: The lifecycle trace of a speculative workload: the recursion that verifies drafts and records what becomes of them.
import KVDeadlineScheduler.Speculative.DraftWorkload

/-!
# Lifecycle traces

The drafts of a generated tree are verified from the roots down. The children of a
node are verified if it is accepted; if it is rejected, its subtree is freed.
-/

namespace KVMemoryIntent

inductive LifecycleFailure where
  | refused (failure : Failure)
  | keyError
  deriving DecidableEq

/-- The locals that the inner functions share. -/
structure LifecycleState where
  policy : SpeculativeIntentPolicy := {}
  currentBlocks : CurrentBlocks
  lifecycleEvents : List MemoryIntentEvent
  step : ℤ
  draws : ℕ := 0

/-- Append an event about a copy of the intent. -/
def LifecycleState.emit (st : LifecycleState) (eventType : EventType) (intent : ValidIntent)
    (reason : String) : Except Failure LifecycleState := do
  let intent ← { intent.1 with lastAccessStep := st.step }.validated
  let event ← MemoryIntentEvent.postInit st.step eventType intent (some reason) none
  .ok { st with
    lifecycleEvents := st.lifecycleEvents ++ [event]
    step := st.step + 1 }

def freeSubtree (st : LifecycleState) (intents : List ValidIntent) : Except Failure LifecycleState :=
  intents.foldlM (fun st intent => st.emit .freed intent "speculative draft rejected") st

/-- `_build_children`. -/
def buildChildren (tree : DraftTree) : OrderedDict (Option ℤ) (List ℤ) :=
  tree.nodes.entries.foldl
    (fun children entry =>
      children.set entry.2.parentId ((children.get? entry.2.parentId).getD [] ++ [entry.1]))
    .empty

section Resolve

variable (random : ℕ → ℚ) (tree : DraftTree) (children : OrderedDict (Option ℤ) (List ℤ))

/-- The part of `resolve` up to the verification: whether the node is accepted, and the
intents of its subtree as they were before. -/
def verifyNode (st : LifecycleState) (nodeId : ℤ) (node : DraftNode) (current : ValidIntent) :
    Except Failure (Bool × List ValidIntent × LifecycleState) := do
  let intent ← { current.1 with lastAccessStep := st.step }.validated
  let verifyEvent ← MemoryIntentEvent.postInit st.step .accessed intent (some "speculative verify") none
  let accepted := decide (random st.draws < node.acceptanceProb)
  let descendants ← tree.descendants nodeId
  let doomedIntents :=
    (node :: descendants).filterMap fun doomed => st.currentBlocks.get? doomed.kvObjectId
  let (policy, currentBlocks) ← processVerifyEvent st.policy verifyEvent tree accepted st.currentBlocks
  .ok (accepted, doomedIntents,
    { st with
      policy := policy
      currentBlocks := currentBlocks
      draws := st.draws + 1 })

/-- The recursion goes down the tree. -/
def resolve : ℕ → LifecycleState → ℤ → Except LifecycleFailure LifecycleState
  | 0, _, _ => .error (.refused .divergence)
  | fuel + 1, st, nodeId =>
    match tree.nodes.get? nodeId with
    | none => .error .keyError
    | some node =>
      match st.currentBlocks.get? node.kvObjectId with
      | none => .ok st
      | some current => do
        let (accepted, doomedIntents, st) ←
          (verifyNode random tree st nodeId node current).mapError .refused
        if accepted then
          match st.currentBlocks.get? node.kvObjectId with
          | none => .error .keyError
          | some committed => do
            let st ← (st.emit .committed committed "speculative draft accepted").mapError .refused
            ((children.get? (some nodeId)).getD []).foldlM (fun st child => resolve fuel st child) st
        else
          (freeSubtree st doomedIntents).mapError .refused

end Resolve

/-- The blocks of the generated events: the last intent of each object. -/
def initialBlocks (baseEvents : List MemoryIntentEvent) : CurrentBlocks :=
  baseEvents.foldl (fun blocks e => blocks.set e.intent.objectId ⟨e.intent, e.intent_valid⟩) .empty

def generateSpeculativeLifecycleTrace (gauss random : ℕ → ℚ) (treeWidth : ℤ := 4) (treeDepth : ℤ := 3) :
    Except LifecycleFailure (DraftTree × List MemoryIntentEvent × SpeculativeIntentPolicy) := do
  let (tree, baseEvents) ← (generateSpeculativeWorkload gauss treeWidth treeDepth).mapError .refused
  let children := buildChildren tree
  let st ← ((children.get? none).getD []).foldlM
    (resolve random tree children (tree.nodes.entries.length + 1))
    { currentBlocks := initialBlocks baseEvents
      lifecycleEvents := baseEvents
      step := (baseEvents.map MemoryIntentEvent.step).max?.getD (-1) + 1 }
  .ok (tree, st.lifecycleEvents.mergeSort fun a b => a.step ≤ b.step, st.policy)

/-! ## Emitting events -/

section Emit

variable {st : LifecycleState}

/-- The intent with its last access at `step`. -/
def touched (intent : ValidIntent) (step : ℤ) : ValidIntent :=
  ⟨{ intent.1 with lastAccessStep := step }, { intent.2 with }⟩

theorem touched_validated (intent : ValidIntent) (step : ℤ) :
    MemoryIntent.validated { intent.1 with lastAccessStep := step } = .ok (touched intent step) :=
  (touched intent step).2.validated

theorem emit_ok (hstep : 0 ≤ st.step) (eventType : EventType) (intent : ValidIntent) (reason : String) :
    ∃ e, st.emit eventType intent reason =
        .ok { st with lifecycleEvents := st.lifecycleEvents ++ [e], step := st.step + 1 } ∧
      e.step = st.step ∧ e.eventType = eventType ∧ e.intent = (touched intent st.step).1 := by
  obtain ⟨e, he, hfields⟩ :=
    MemoryIntentEvent.postInit_total hstep eventType (touched intent st.step) (some reason)
  refine ⟨e, ?_, hfields⟩
  exact Replay.bind_eq_ok.mpr ⟨_, touched_validated intent st.step, Replay.bind_eq_ok.mpr ⟨e, he, rfl⟩⟩

/-- The frees of a subtree, one for each intent. -/
theorem freeSubtree_ok (hstep : 0 ≤ st.step) (intents : List ValidIntent) :
    ∃ new, freeSubtree st intents =
        .ok { st with
          lifecycleEvents := st.lifecycleEvents ++ new
          step := st.step + new.length } ∧
      StepsFrom st.step new ∧
      List.Forall₂ (fun intent e => e.eventType = .freed ∧ ∃ step, e.intent = (touched intent step).1)
        intents new := by
  induction intents generalizing st with
  | nil =>
    refine ⟨[], ?_, .nil, .nil⟩
    simp only [List.append_nil, List.length_nil, Nat.cast_zero, add_zero]
    rfl
  | cons intent intents ih =>
    obtain ⟨e, hemit, he, htype, hintent⟩ := emit_ok hstep .freed intent "speculative draft rejected"
    let next : LifecycleState :=
      { st with lifecycleEvents := st.lifecycleEvents ++ [e], step := st.step + 1 }
    have hnext : 0 ≤ next.step := by
      have hdef : next.step = st.step + 1 := rfl
      omega
    obtain ⟨new, hrest, hsteps, hall⟩ := ih hnext
    refine ⟨e :: new, ?_, .cons he hsteps, .cons ⟨htype, _, hintent⟩ hall⟩
    rw [freeSubtree, List.foldlM_cons]
    refine Replay.bind_eq_ok.mpr ⟨next, hemit, ?_⟩
    rw [freeSubtree] at hrest
    rw [hrest, List.length_cons]
    simp only [next, List.append_assoc, List.singleton_append, Nat.cast_add, Nat.cast_one]
    rw [add_assoc, add_comm (1 : ℤ)]

end Emit

/-! ## Verification -/

/-- What verification does once the descendants are known. -/
theorem verifyNode_eq (random : ℕ → ℚ) {tree : DraftTree} {st : LifecycleState} {nodeId : ℤ}
    {node : DraftNode} {current : ValidIntent} {descendants : List DraftNode} (hstep : 0 ≤ st.step)
    (hnode : tree.nodes.get? nodeId = some node) (hblock : current.1.blockId = nodeId)
    (hdescendants : tree.descendants nodeId = .ok descendants) :
    verifyNode random tree st nodeId node current =
      let nodes := node :: descendants
      let doomed := nodes.filterMap fun n => st.currentBlocks.get? n.kvObjectId
      let rejected := nodes.foldl rejectNode (st.policy, st.currentBlocks)
      if random st.draws < node.acceptanceProb then
        (nodes.foldlM acceptNode st.currentBlocks).map fun blocks =>
          (true, doomed, { st with currentBlocks := blocks, draws := st.draws + 1 })
      else
        .ok (false, doomed,
          { st with policy := rejected.1, currentBlocks := rejected.2, draws := st.draws + 1 }) := by
  obtain ⟨event, hevent, -, -, hintent⟩ := MemoryIntentEvent.postInit_total hstep .accessed
    (touched current st.step) (some "speculative verify")
  have hname : event.intent.blockId = nodeId := by
    rw [hintent]
    exact hblock
  have hprocess := fun accepted => processVerifyEvent_of_descendants st.policy (hname ▸ hdescendants)
    accepted st.currentBlocks
  simp only [hname, hnode, Option.toList_some, List.singleton_append] at hprocess
  have hverify : verifyNode random tree st nodeId node current =
      (processVerifyEvent st.policy event tree (decide (random st.draws < node.acceptanceProb))
        st.currentBlocks).map fun outcome =>
          (decide (random st.draws < node.acceptanceProb),
            (node :: descendants).filterMap (fun n => st.currentBlocks.get? n.kvObjectId),
            { st with policy := outcome.1, currentBlocks := outcome.2, draws := st.draws + 1 }) := by
    simp only [verifyNode, touched_validated, hevent, hdescendants, bind, Except.bind]
    cases processVerifyEvent st.policy event tree (decide (random st.draws < node.acceptanceProb))
      st.currentBlocks with
    | error failure => rfl
    | ok outcome => rfl
  rw [hverify, hprocess]
  by_cases haccepted : random st.draws < node.acceptanceProb
  · simp only [haccepted, decide_true, if_true]
    cases (node :: descendants).foldlM acceptNode st.currentBlocks with
    | error failure => rfl
    | ok blocks => rfl
  · simp only [haccepted, decide_false, Bool.false_eq_true, if_false]
    rfl

section Resolve

variable {random : ℕ → ℚ} {tree : DraftTree} {children : OrderedDict (Option ℤ) (List ℤ)} {fuel : ℕ}
  {st verified next : LifecycleState} {nodeId : ℤ} {node : DraftNode} {current committed : ValidIntent}
  {doomed : List ValidIntent}

theorem resolve_rejected (hnode : tree.nodes.get? nodeId = some node)
    (hcurrent : st.currentBlocks.get? node.kvObjectId = some current)
    (hverify : verifyNode random tree st nodeId node current = .ok (false, doomed, verified)) :
    resolve random tree children (fuel + 1) st nodeId =
      (freeSubtree verified doomed).mapError .refused := by
  simp only [resolve, hnode, hcurrent, hverify]
  rfl

theorem resolve_accepted (hnode : tree.nodes.get? nodeId = some node)
    (hcurrent : st.currentBlocks.get? node.kvObjectId = some current)
    (hverify : verifyNode random tree st nodeId node current = .ok (true, doomed, verified))
    (hcommitted : verified.currentBlocks.get? node.kvObjectId = some committed)
    (hemit : verified.emit .committed committed "speculative draft accepted" = .ok next) :
    resolve random tree children (fuel + 1) st nodeId =
      ((children.get? (some nodeId)).getD []).foldlM (resolve random tree children fuel) next := by
  simp only [resolve, hnode, hcurrent, hverify]
  simp only [Except.mapError, bind, Except.bind, if_true, hcommitted, hemit]

end Resolve

/-! ## Children -/

theorem get?_buildChildren (tree : DraftTree) (parentId : Option ℤ) :
    ((buildChildren tree).get? parentId).getD [] =
      (tree.nodes.entries.filter fun entry => entry.2.parentId = parentId).map Prod.fst := by
  have hloop : ∀ (entries : List (ℤ × DraftNode)) (children : OrderedDict (Option ℤ) (List ℤ)),
      ((entries.foldl (fun children entry =>
          children.set entry.2.parentId ((children.get? entry.2.parentId).getD [] ++ [entry.1]))
        children).get? parentId).getD [] =
        (children.get? parentId).getD [] ++
          (entries.filter fun entry => entry.2.parentId = parentId).map Prod.fst := by
    intro entries
    induction entries with
    | nil => simp
    | cons entry entries ih =>
      intro children
      rw [List.foldl_cons, ih, OrderedDict.get?_set]
      by_cases h : entry.2.parentId = parentId
      · subst h
        simp
      · rw [if_neg (Ne.symm h), List.filter_cons_of_neg (by simpa using h)]
  simpa [buildChildren] using hloop tree.nodes.entries .empty

theorem mem_buildChildren {tree : DraftTree} {parentId : Option ℤ} {id : ℤ} :
    id ∈ ((buildChildren tree).get? parentId).getD [] ↔
      ∃ node, tree.nodes.get? id = some node ∧ node.parentId = parentId := by
  simp only [get?_buildChildren, List.mem_map, List.mem_filter, decide_eq_true_eq, Prod.exists,
    exists_and_right, exists_eq_right, OrderedDict.get?_eq_some_iff]

theorem nodup_buildChildren (tree : DraftTree) (parentId : Option ℤ) :
    (((buildChildren tree).get? parentId).getD []).Nodup := by
  rw [get?_buildChildren]
  exact (List.filter_sublist.map Prod.fst).nodup tree.nodes.nodup

end KVMemoryIntent
