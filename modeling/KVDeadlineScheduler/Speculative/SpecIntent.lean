-- SUMMARY: Draft trees, and what the verification of a node makes of the blocks of its subtree.
import KVDeadlineScheduler.Library.Forest
import KVDeadlineScheduler.Library.OrderedDict
import KVDeadlineScheduler.Library.Replay
import KVDeadlineScheduler.Events

/-!
# Draft trees

A draft tree names a block for every drafted token. When a node is accepted, the
blocks of its whole subtree are marked as committed; when it is rejected, they are
dropped and counted.
-/

namespace KVMemoryIntent

/-! ## Trees -/

structure DraftNode where
  tokenId : ℤ
  parentId : Option ℤ
  depth : ℤ
  acceptanceProb : ℚ
  kvObjectId : String
  deriving DecidableEq

structure DraftTree where
  nodes : OrderedDict ℤ DraftNode := .empty

namespace DraftTree

/-- The nodes below a node. Its worklist is done after two rounds more than there
are nodes, unless parent pointers run in a circle. -/
def descendants (tree : DraftTree) (nodeId : ℤ) : Except Failure (List DraftNode) :=
  match Forest.collect (Forest.children tree.nodes.entries DraftNode.parentId)
      (tree.nodes.entries.length + 2) [] [nodeId] with
  | some found => .ok found
  | none => .error .divergence

abbrev Child (tree : DraftTree) : ℤ → ℤ → Prop := Forest.Child tree.nodes.entries DraftNode.parentId

abbrev Below (tree : DraftTree) : ℤ → ℤ → Prop := Forest.Below tree.nodes.entries DraftNode.parentId

abbrev Acyclic (tree : DraftTree) : Prop := Forest.Acyclic tree.nodes.entries DraftNode.parentId

/-- The block belongs to a node of the subtree. -/
def Holds (tree : DraftTree) (nodeId : ℤ) (objectId : String) : Prop :=
  ∃ id node, tree.nodes.get? id = some node ∧ tree.Below nodeId id ∧ node.kvObjectId = objectId

end DraftTree

/-! ## Verification -/

/-- The blocks that are alive, by object. -/
abbrev CurrentBlocks := OrderedDict String ValidIntent

/-- The counters of the policy. It places blocks as its base class does. -/
structure SpeculativeIntentPolicy where
  draftBlocksFreedOnRejection : ℕ := 0
  wastedHbmMbOnRejectedDrafts : ℚ := 0
  deriving DecidableEq

/-- The fields of an accepted block. -/
def acceptedFields (current : MemoryIntent) : MemoryIntent :=
  { current with
    priority := .decodeCritical
    phase := .decode
    pinRequested := true
    isDraft := false
    isCommitted := true }

def acceptNode (currentBlocks : CurrentBlocks) (node : DraftNode) : Except Failure CurrentBlocks :=
  match currentBlocks.get? node.kvObjectId with
  | none => .ok currentBlocks
  | some current => do
    let committed ← (acceptedFields current).validated
    .ok (currentBlocks.set node.kvObjectId committed)

def rejectNode (state : SpeculativeIntentPolicy × CurrentBlocks) (node : DraftNode) :
    SpeculativeIntentPolicy × CurrentBlocks :=
  let (policy, currentBlocks) := state
  match currentBlocks.get? node.kvObjectId with
  | none => (policy, currentBlocks)
  | some current =>
    ({ draftBlocksFreedOnRejection := policy.draftBlocksFreedOnRejection + 1
       wastedHbmMbOnRejectedDrafts :=
        policy.wastedHbmMbOnRejectedDrafts + (current.1.sizeBytes : ℚ) / (1024 * 1024) },
      currentBlocks.erase node.kvObjectId)

/-- Both branches start with the node itself, if the tree has it. -/
def processVerifyEvent (policy : SpeculativeIntentPolicy) (event : MemoryIntentEvent) (tree : DraftTree)
    (accepted : Bool) (currentBlocks : CurrentBlocks) :
    Except Failure (SpeculativeIntentPolicy × CurrentBlocks) := do
  let nodeId := event.intent.blockId
  let descendants ← tree.descendants nodeId
  let nodes := (tree.nodes.get? nodeId).toList ++ descendants
  if accepted then
    let currentBlocks ← nodes.foldlM acceptNode currentBlocks
    .ok (policy, currentBlocks)
  else
    .ok (nodes.foldl rejectNode (policy, currentBlocks))

/-! ## The nodes of a subtree -/

namespace DraftTree

variable {tree : DraftTree} {nodeId : ℤ}

/-- A node that is not below itself has its descendants collected, each once. -/
theorem descendants_ok (hcircle : ¬Relation.TransGen tree.Child nodeId nodeId) :
    ∃ found : List (ℤ × DraftNode), tree.descendants nodeId = .ok (found.map Prod.snd) ∧
      (found.map Prod.fst).Nodup ∧
      ∀ id node, (id, node) ∈ found ↔
        tree.nodes.get? id = some node ∧ Relation.TransGen tree.Child nodeId id := by
  obtain ⟨found, hcollect, hnodup, hmem⟩ := Forest.collect_eq tree.nodes.nodup hcircle
  refine ⟨found, ?_, hnodup, fun id node => ?_⟩
  · rw [descendants, hcollect]
  · rw [hmem, OrderedDict.get?_eq_some_iff]

/-- The nodes that verification goes through. -/
theorem subtree_ok (hacyclic : tree.Acyclic) (nodeId : ℤ) :
    ∃ (descendants : List DraftNode) (subtree : List (ℤ × DraftNode)), tree.descendants nodeId = .ok descendants ∧
      (tree.nodes.get? nodeId).toList ++ descendants = subtree.map Prod.snd ∧
      (subtree.map Prod.fst).Nodup ∧
      ∀ id node, (id, node) ∈ subtree ↔ tree.nodes.get? id = some node ∧ tree.Below nodeId id := by
  obtain ⟨found, hfound, hnodup, hmem⟩ := descendants_ok (hacyclic nodeId)
  have hnotin : ∀ node, (nodeId, node) ∉ found :=
    fun node hin => hacyclic nodeId ((hmem nodeId node).mp hin).2
  have hbelow : ∀ id, tree.Below nodeId id ↔ id = nodeId ∨ Relation.TransGen tree.Child nodeId id :=
    fun id => Relation.reflTransGen_iff_eq_or_transGen
  refine ⟨found.map Prod.snd, (tree.nodes.get? nodeId).toList.map (nodeId, ·) ++ found, hfound, ?_, ?_, ?_⟩
  · simp [List.map_append, Function.comp_def]
  · cases hnode : tree.nodes.get? nodeId with
    | none => simpa using hnodup
    | some node => simpa [hnodup] using hnotin
  · intro id node
    rw [List.mem_append, hmem, hbelow]
    cases hnode : tree.nodes.get? nodeId with
    | none =>
      simp only [Option.toList_none, List.map_nil, List.not_mem_nil, false_or]
      refine and_congr_right fun hget => ⟨.inr, ?_⟩
      rintro (rfl | htrans)
      · rw [hnode] at hget
        cases hget
      · exact htrans
    | some root =>
      simp only [Option.toList_some, List.map_cons, List.map_nil, List.mem_singleton, Prod.mk.injEq]
      constructor
      · rintro (⟨rfl, rfl⟩ | ⟨hget, htrans⟩)
        · exact ⟨hnode, .inl rfl⟩
        · exact ⟨hget, .inr htrans⟩
      · rintro ⟨hget, rfl | htrans⟩
        · rw [hnode] at hget
          exact .inl ⟨rfl, (Option.some.inj hget).symm⟩
        · exact .inr ⟨hget, htrans⟩

theorem mem_objects_iff {subtree : List (ℤ × DraftNode)}
    (hmem : ∀ id node, (id, node) ∈ subtree ↔ tree.nodes.get? id = some node ∧ tree.Below nodeId id)
    (objectId : String) :
    objectId ∈ (subtree.map Prod.snd).map DraftNode.kvObjectId ↔ tree.Holds nodeId objectId := by
  simp only [List.map_map, List.mem_map, Function.comp_apply, Prod.exists, hmem, Holds, and_assoc]

end DraftTree

/-! ## Blocks after verification -/

theorem acceptedFields_valid {m : MemoryIntent} (h : m.Valid) : (acceptedFields m).Valid :=
  { h with pinned := fun _ => rfl }

def acceptedBlock (current : ValidIntent) : ValidIntent :=
  ⟨acceptedFields current.1, acceptedFields_valid current.2⟩

section Verification

variable {tree : DraftTree} {policy : SpeculativeIntentPolicy} {event : MemoryIntentEvent}

/-- Acceptance rewrites the blocks of the nodes. -/
theorem acceptNodes_get? (nodes : List DraftNode) (blocks : CurrentBlocks) :
    ∃ blocks', nodes.foldlM acceptNode blocks = .ok blocks' ∧
      ∀ id, blocks'.get? id =
        if id ∈ nodes.map DraftNode.kvObjectId then (blocks.get? id).map acceptedBlock
        else blocks.get? id := by
  induction nodes generalizing blocks with
  | nil => exact ⟨blocks, rfl, fun id => by simp⟩
  | cons node nodes ih =>
    rw [List.foldlM_cons]
    have hnode : ∃ next, acceptNode blocks node = .ok next ∧
        ∀ id, next.get? id =
          if id = node.kvObjectId then (blocks.get? id).map acceptedBlock else blocks.get? id := by
      cases hget : blocks.get? node.kvObjectId with
      | none =>
        refine ⟨blocks, by simp only [acceptNode, hget], fun id => ?_⟩
        split
        next heq => rw [heq, hget]; rfl
        next => rfl
      | some current =>
        refine ⟨blocks.set node.kvObjectId (acceptedBlock current), ?_, fun id => ?_⟩
        · simp only [acceptNode, hget, (acceptedFields_valid current.2).validated]
          rfl
        · rw [OrderedDict.get?_set]
          split
          next heq => rw [heq, hget]; rfl
          next => rfl
    obtain ⟨next, hnext, hsame⟩ := hnode
    obtain ⟨blocks', hrest, hall⟩ := ih next
    refine ⟨blocks', Replay.bind_eq_ok.mpr ⟨next, hnext, hrest⟩, fun id => ?_⟩
    rw [hall, hsame, List.map_cons]
    by_cases heq : id = node.kvObjectId
    · -- to accept a block twice is to accept it once
      have htwice : acceptedBlock ∘ acceptedBlock = acceptedBlock := rfl
      simp [heq, htwice]
    · simp [heq]

theorem rejectNode_of_none {node : DraftNode} {blocks : CurrentBlocks}
    (h : blocks.get? node.kvObjectId = none) : rejectNode (policy, blocks) node = (policy, blocks) := by
  simp only [rejectNode, h]

theorem rejectNode_of_some {node : DraftNode} {blocks : CurrentBlocks} {current : ValidIntent}
    (h : blocks.get? node.kvObjectId = some current) :
    rejectNode (policy, blocks) node =
      ({ draftBlocksFreedOnRejection := policy.draftBlocksFreedOnRejection + 1
         wastedHbmMbOnRejectedDrafts :=
          policy.wastedHbmMbOnRejectedDrafts + (current.1.sizeBytes : ℚ) / (1024 * 1024) },
        blocks.erase node.kvObjectId) := by
  simp only [rejectNode, h]

/-- Rejection drops the blocks of the nodes. -/
theorem rejectNodes_get? (nodes : List DraftNode) (policy : SpeculativeIntentPolicy)
    (blocks : CurrentBlocks) (id : String) :
    (nodes.foldl rejectNode (policy, blocks)).2.get? id =
      if id ∈ nodes.map DraftNode.kvObjectId then none else blocks.get? id := by
  induction nodes generalizing policy blocks with
  | nil => simp
  | cons node nodes ih =>
    rw [List.foldl_cons]
    have hnode : (rejectNode (policy, blocks) node).2.get? id =
        if id = node.kvObjectId then none else blocks.get? id := by
      cases hget : blocks.get? node.kvObjectId with
      | none =>
        rw [rejectNode_of_none hget]
        split
        next heq => rw [heq, hget]
        next => rfl
      | some current =>
        rw [rejectNode_of_some hget]
        exact OrderedDict.get?_erase _ _ _
    have hrest := ih (rejectNode (policy, blocks) node).1 (rejectNode (policy, blocks) node).2
    rw [Prod.mk.eta] at hrest
    rw [hrest, hnode, List.map_cons]
    by_cases heq : id = node.kvObjectId
    · simp [heq]
    · simp [heq]

/-- It counts each of them. -/
theorem rejectNodes_count {nodes : List DraftNode} (hdistinct : (nodes.map DraftNode.kvObjectId).Nodup)
    (policy : SpeculativeIntentPolicy) (blocks : CurrentBlocks) :
    (nodes.foldl rejectNode (policy, blocks)).1.draftBlocksFreedOnRejection =
      policy.draftBlocksFreedOnRejection +
        (nodes.filterMap fun node => blocks.get? node.kvObjectId).length := by
  induction nodes generalizing policy blocks with
  | nil => rfl
  | cons node nodes ih =>
    rw [List.map_cons, List.nodup_cons] at hdistinct
    rw [List.foldl_cons]
    cases hget : blocks.get? node.kvObjectId with
    | none =>
      rw [rejectNode_of_none hget, ih hdistinct.2]
      simp only [List.filterMap_cons, hget]
    | some current =>
      -- the blocks of the other nodes are still there
      have hothers : (nodes.filterMap fun n => (blocks.erase node.kvObjectId).get? n.kvObjectId) =
          nodes.filterMap fun n => blocks.get? n.kvObjectId := by
        refine List.filterMap_congr fun n hn => OrderedDict.get?_erase_of_ne _ fun heq => ?_
        exact hdistinct.1 (heq ▸ List.mem_map_of_mem hn)
      rw [rejectNode_of_some hget, ih hdistinct.2, hothers]
      simp only [List.filterMap_cons, hget, List.length_cons]
      omega

variable (policy) in
theorem processVerifyEvent_of_descendants {descendants : List DraftNode}
    (h : tree.descendants event.intent.blockId = .ok descendants) (accepted : Bool) (blocks : CurrentBlocks) :
    processVerifyEvent policy event tree accepted blocks =
      let nodes := (tree.nodes.get? event.intent.blockId).toList ++ descendants
      if accepted then (nodes.foldlM acceptNode blocks).map (policy, ·)
      else .ok (nodes.foldl rejectNode (policy, blocks)) := by
  rw [processVerifyEvent, h]
  cases accepted with
  | false => rfl
  | true =>
    simp only [if_true]
    rfl

variable (policy event) in
/-- Acceptance of a node rewrites the blocks of its subtree and leaves the others alone. -/
theorem processVerifyEvent_accepted (hacyclic : tree.Acyclic) (blocks : CurrentBlocks) :
    ∃ blocks', processVerifyEvent policy event tree true blocks = .ok (policy, blocks') ∧
      ∀ id, (tree.Holds event.intent.blockId id → blocks'.get? id = (blocks.get? id).map acceptedBlock) ∧
        (¬tree.Holds event.intent.blockId id → blocks'.get? id = blocks.get? id) := by
  obtain ⟨descendants, subtree, hdescendants, hnodes, -, hmem⟩ :=
    DraftTree.subtree_ok hacyclic event.intent.blockId
  obtain ⟨blocks', hrun, hget⟩ := acceptNodes_get? (subtree.map Prod.snd) blocks
  refine ⟨blocks', ?_, fun id => ?_⟩
  · rw [processVerifyEvent_of_descendants policy hdescendants]
    dsimp only
    rw [if_pos rfl, hnodes, hrun]
    rfl
  · rw [hget id, ← DraftTree.mem_objects_iff hmem]
    exact ⟨fun h => if_pos h, fun h => if_neg h⟩

variable (policy event) in
/-- Rejection of a node drops the blocks of its subtree and leaves the others alone. -/
theorem processVerifyEvent_rejected (hacyclic : tree.Acyclic) (blocks : CurrentBlocks) :
    ∃ policy' blocks', processVerifyEvent policy event tree false blocks = .ok (policy', blocks') ∧
      ∀ id, (tree.Holds event.intent.blockId id → blocks'.get? id = none) ∧
        (¬tree.Holds event.intent.blockId id → blocks'.get? id = blocks.get? id) := by
  obtain ⟨descendants, subtree, hdescendants, hnodes, -, hmem⟩ :=
    DraftTree.subtree_ok hacyclic event.intent.blockId
  refine ⟨((subtree.map Prod.snd).foldl rejectNode (policy, blocks)).1,
    ((subtree.map Prod.snd).foldl rejectNode (policy, blocks)).2, ?_, fun id => ?_⟩
  · rw [processVerifyEvent_of_descendants policy hdescendants]
    dsimp only
    rw [if_neg Bool.false_ne_true, hnodes]
  · rw [rejectNodes_get?, ← DraftTree.mem_objects_iff hmem]
    exact ⟨fun h => if_pos h, fun h => if_neg h⟩

end Verification

end KVMemoryIntent
