-- SUMMARY: What becomes of the drafts of a speculative workload: each is committed or freed once, and a replay leaves the committed ones live.
import KVDeadlineScheduler.Speculative.Lifecycle

/-!
# Fates of drafts

The recursion settles the subtree of a node with one event for each of its nodes,
and touches no other block. Siblings have disjoint subtrees, so a loop over them
settles all of these, and a loop over the roots the whole tree.
-/

namespace KVMemoryIntent

/-! ## Generated trees -/

section Tree

variable {tree : DraftTree} {base : List MemoryIntentEvent} {count : ℕ} {id v : ℤ} {node : DraftNode}

theorem DraftTree.node_of_child {p : ℤ} (h : tree.Child p id) : ∃ node, tree.nodes.get? id = some node := by
  obtain ⟨node, hin, -⟩ := h
  exact ⟨node, OrderedDict.get?_eq_some_iff.mpr hin⟩

theorem DraftTree.node_of_below (hnode : tree.nodes.get? v = some node) (h : tree.Below v id) :
    ∃ node, tree.nodes.get? id = some node := by
  rcases Relation.ReflTransGen.cases_tail h with rfl | ⟨p, -, hchild⟩
  · exact ⟨node, hnode⟩
  · exact DraftTree.node_of_child hchild

theorem DraftTree.child_iff {p : ℤ} (hnode : tree.nodes.get? id = some node) :
    tree.Child p id ↔ node.parentId = some p := by
  constructor
  · rintro ⟨other, hin, hparent⟩
    rw [OrderedDict.get?_eq_some_iff.mpr hin] at hnode
    cases hnode
    exact hparent
  · exact fun hparent => ⟨node, OrderedDict.get?_eq_some_iff.mp hnode, hparent⟩

variable (hdrafted : Drafted tree base count)
include hdrafted

theorem Drafted.bounds (hnode : tree.nodes.get? id = some node) : 0 ≤ id ∧ id < count :=
  (hdrafted.mem_keys id).mp (OrderedDict.mem_keys_iff.mpr ⟨node, hnode⟩)

theorem Drafted.child_lt {p : ℤ} (h : tree.Child p id) : 0 ≤ p ∧ p < id := by
  obtain ⟨node, hnode⟩ := DraftTree.node_of_child h
  exact hdrafted.parent id node p hnode ((DraftTree.child_iff hnode).mp h)

theorem Drafted.acyclic : tree.Acyclic := Forest.acyclic_of_lt fun _ _ h => (hdrafted.child_lt h).2

theorem Drafted.parent_node {p : ℤ} (h : tree.Child p id) : ∃ node, tree.nodes.get? p = some node := by
  obtain ⟨node, hnode⟩ := DraftTree.node_of_child h
  have hlt := hdrafted.child_lt h
  have hid := hdrafted.bounds hnode
  rw [← OrderedDict.mem_keys_iff, hdrafted.mem_keys]
  omega

/-- Every node is below a root. -/
theorem Drafted.rooted (hnode : tree.nodes.get? id = some node) :
    ∃ r ∈ ((buildChildren tree).get? none).getD [], tree.Below r id := by
  obtain ⟨n, rfl⟩ := Int.eq_ofNat_of_zero_le (hdrafted.bounds hnode).1
  induction n using Nat.strong_induction_on generalizing node with
  | _ n ih =>
    cases hparent : node.parentId with
    | none => exact ⟨n, mem_buildChildren.mpr ⟨node, hnode, hparent⟩, .refl⟩
    | some p =>
      have hchild := (DraftTree.child_iff hnode).mpr hparent
      have hlt := hdrafted.child_lt hchild
      obtain ⟨above, habove⟩ := hdrafted.parent_node hchild
      obtain ⟨m, rfl⟩ := Int.eq_ofNat_of_zero_le hlt.1
      obtain ⟨r, hr, hbelow⟩ := ih m (by omega) habove
      exact ⟨r, hr, hbelow.tail hchild⟩

/-- Those who share a parent, or have none, have disjoint subtrees. -/
theorem Drafted.siblings_disjoint {parentId : Option ℤ} {a b : ℤ}
    (ha : a ∈ ((buildChildren tree).get? parentId).getD [])
    (hb : b ∈ ((buildChildren tree).get? parentId).getD []) (hbelow : tree.Below a id)
    (hbelow' : tree.Below b id) : a = b := by
  obtain ⟨na, hna, hpa⟩ := mem_buildChildren.mp ha
  obtain ⟨nb, hnb, hpb⟩ := mem_buildChildren.mp hb
  have hsiblings : ∀ p, tree.Child p a ↔ tree.Child p b := fun p => by
    rw [DraftTree.child_iff hna, DraftTree.child_iff hnb, hpa, hpb]
  exact Forest.siblings_disjoint tree.nodes.nodup hdrafted.acyclic hsiblings hbelow hbelow'

end Tree

/-! ## Fates -/

/-- The events decide about the settled nodes, and only about these: each is committed,
if its parent is, or freed, with its children. -/
structure Fates (tree : DraftTree) (settled : Set ℤ) (events : List MemoryIntentEvent) : Prop where
  fate : ∀ e ∈ events, e.eventType = .committed ∨ e.eventType = .freed
  block : ∀ e ∈ events, e.objectId = draftObjectId e.intent.blockId ∧
    e.intent.allowedTiers = {.hbm, .dram}
  once : (events.map fun e => e.intent.blockId).Nodup
  complete : ∀ id, id ∈ (events.map fun e => e.intent.blockId) ↔ id ∈ settled
  committed : ∀ e ∈ events, e.eventType = .committed → ∀ p ∈ settled, tree.Child p e.intent.blockId →
    ∃ e' ∈ events, e'.eventType = .committed ∧ e'.intent.blockId = p
  freed : ∀ e ∈ events, e.eventType = .freed → ∀ id, tree.Child e.intent.blockId id →
    ∃ e' ∈ events, e'.eventType = .freed ∧ e'.intent.blockId = id

section Fates

variable {tree : DraftTree} {S S' : Set ℤ} {new new' : List MemoryIntentEvent}

theorem Fates.mem_settled (h : Fates tree S new) {e : MemoryIntentEvent} (he : e ∈ new) :
    e.intent.blockId ∈ S :=
  (h.complete _).mp (List.mem_map_of_mem he)

/-- A settled node has one event. -/
theorem Fates.one (h : Fates tree S new) {id : ℤ} (hid : id ∈ S) :
    ∃ e, new.filter (fun e => e.intent.blockId = id) = [e] := by
  have hcount := List.count_eq_one_of_mem h.once ((h.complete id).mpr hid)
  rw [List.count, List.countP_map, List.countP_eq_length_filter, List.length_eq_one_iff] at hcount
  exact hcount

/-- All below a freed node are freed. -/
theorem Fates.freed_below (h : Fates tree S new) {e : MemoryIntentEvent} (he : e ∈ new)
    (htype : e.eventType = .freed) {id : ℤ} (hbelow : Relation.TransGen tree.Child e.intent.blockId id) :
    ∃ e' ∈ new, e'.eventType = .freed ∧ e'.intent.blockId = id := by
  induction hbelow with
  | single hchild => exact h.freed e he htype _ hchild
  | tail _ hchild ih =>
    obtain ⟨e', he', htype', rfl⟩ := ih
    exact h.freed e' he' htype' _ hchild

theorem Fates.nil : Fates tree ∅ [] := by
  constructor <;> simp

theorem Fates.append (h : Fates tree S new) (h' : Fates tree S' new') (hdisjoint : ∀ id ∈ S, id ∉ S')
    (hclosed : ∀ p ∈ S, ∀ id, tree.Child p id → id ∈ S) (hclosed' : ∀ p ∈ S', ∀ id, tree.Child p id → id ∈ S') :
    Fates tree (S ∪ S') (new ++ new') where
  fate e he := (List.mem_append.mp he).elim (h.fate e) (h'.fate e)
  block e he := (List.mem_append.mp he).elim (h.block e) (h'.block e)
  once := by
    rw [List.map_append, List.nodup_append]
    refine ⟨h.once, h'.once, ?_⟩
    rintro id hid _ hid' rfl
    exact hdisjoint id ((h.complete id).mp hid) ((h'.complete id).mp hid')
  complete id := by
    rw [List.map_append, List.mem_append, h.complete, h'.complete]
    rfl
  committed e he htype p hp hchild := by
    rcases List.mem_append.mp he with hin | hin
    · have hpS : p ∈ S := hp.resolve_right fun hp' =>
        hdisjoint _ (h.mem_settled hin) (hclosed' p hp' _ hchild)
      obtain ⟨e', he', hfate⟩ := h.committed e hin htype p hpS hchild
      exact ⟨e', List.mem_append_left _ he', hfate⟩
    · have hpS : p ∈ S' := hp.resolve_left fun hp' =>
        hdisjoint _ (hclosed p hp' _ hchild) (h'.mem_settled hin)
      obtain ⟨e', he', hfate⟩ := h'.committed e hin htype p hpS hchild
      exact ⟨e', List.mem_append_right _ he', hfate⟩
  freed e he htype id hchild := by
    rcases List.mem_append.mp he with hin | hin
    · obtain ⟨e', he', hfate⟩ := h.freed e hin htype id hchild
      exact ⟨e', List.mem_append_left _ he', hfate⟩
    · obtain ⟨e', he', hfate⟩ := h'.freed e hin htype id hchild
      exact ⟨e', List.mem_append_right _ he', hfate⟩

end Fates

/-- From `st` to `st'` the settled nodes have met their fates, by the events `new`. The counter and
the steps have kept up, and blocks of other nodes are as they were. -/
structure Resolution (tree : DraftTree) (settled : Set ℤ) (st st' : LifecycleState)
    (new : List MemoryIntentEvent) : Prop where
  fates : Fates tree settled new
  events : st'.lifecycleEvents = st.lifecycleEvents ++ new
  step : st'.step = st.step + new.length
  steps : StepsFrom st.step new
  count : st'.policy.draftBlocksFreedOnRejection =
    st.policy.draftBlocksFreedOnRejection + new.countP fun e => e.eventType = .freed
  frame : ∀ id ∉ settled, st'.currentBlocks.get? (draftObjectId id) =
    st.currentBlocks.get? (draftObjectId id)

section Resolution

variable {tree : DraftTree} {S S' : Set ℤ} {st st' st'' : LifecycleState}
  {new new' : List MemoryIntentEvent}

theorem Resolution.nil (st : LifecycleState) : Resolution tree ∅ st st [] where
  fates := .nil
  events := by simp
  step := by simp
  steps := .nil
  count := by simp
  frame _ _ := rfl

theorem Resolution.append (h : Resolution tree S st st' new) (h' : Resolution tree S' st' st'' new')
    (hdisjoint : ∀ id ∈ S, id ∉ S') (hclosed : ∀ p ∈ S, ∀ id, tree.Child p id → id ∈ S)
    (hclosed' : ∀ p ∈ S', ∀ id, tree.Child p id → id ∈ S') :
    Resolution tree (S ∪ S') st st'' (new ++ new') where
  fates := h.fates.append h'.fates hdisjoint hclosed hclosed'
  events := by rw [h'.events, h.events, List.append_assoc]
  step := by
    rw [h'.step, h.step, List.length_append]
    push_cast
    ring
  steps := h.steps.append (h.step ▸ h'.steps)
  count := by rw [h'.count, h.count, List.countP_append, Nat.add_assoc]
  frame id hid := by
    rw [Set.mem_union, not_or] at hid
    rw [h'.frame id hid.2, h.frame id hid.1]

end Resolution

/-! ## The blocks of a subtree -/

/-- A block of the node. -/
structure IsDraftBlock (id : ℤ) (block : ValidIntent) : Prop where
  objectId : block.1.objectId = draftObjectId id
  blockId : block.1.blockId = id
  allowedTiers : block.1.allowedTiers = {.hbm, .dram}

/-- The node has a block. -/
def Alive (blocks : CurrentBlocks) (id : ℤ) : Prop :=
  ∃ block, blocks.get? (draftObjectId id) = some block ∧ IsDraftBlock id block

theorem IsDraftBlock.accepted {id : ℤ} {block : ValidIntent} (h : IsDraftBlock id block) :
    IsDraftBlock id (acceptedBlock block) := ⟨h.objectId, h.blockId, h.allowedTiers⟩

/-- Where each node has a block, the blocks of nodes are one for each. -/
theorem blocks_of_nodes {blocks : CurrentBlocks} {nodes : List (ℤ × DraftNode)}
    (h : ∀ entry ∈ nodes, ∃ block, blocks.get? entry.2.kvObjectId = some block ∧
      IsDraftBlock entry.1 block) :
    (((nodes.map Prod.snd).filterMap fun n => blocks.get? n.kvObjectId).map fun m => m.1.blockId) =
        nodes.map Prod.fst ∧
      ∀ m ∈ (nodes.map Prod.snd).filterMap fun n => blocks.get? n.kvObjectId,
        IsDraftBlock m.1.blockId m := by
  induction nodes with
  | nil => simp
  | cons entry nodes ih =>
    obtain ⟨block, hget, hblock⟩ := h entry List.mem_cons_self
    obtain ⟨hmap, hall⟩ := ih fun e he => h e (List.mem_cons_of_mem entry he)
    have hid := hblock.blockId
    simp only [List.map_cons, List.filterMap_cons, hget, hid, hmap, List.mem_cons, true_and]
    rintro m (rfl | hm)
    · rw [hid]
      exact hblock
    · exact hall m hm

/-- The nodes that the verification of `v` goes through. -/
structure Subtree (tree : DraftTree) (v : ℤ) (nodes : List (ℤ × DraftNode)) : Prop where
  ids : (nodes.map Prod.fst).Nodup
  mem : ∀ id, id ∈ nodes.map Prod.fst ↔ tree.Below v id
  object : ∀ entry ∈ nodes, entry.2.kvObjectId = draftObjectId entry.1

section Subtree

variable {tree : DraftTree} {v : ℤ} {nodes : List (ℤ × DraftNode)}

theorem Subtree.objects (h : Subtree tree v nodes) :
    (nodes.map Prod.snd).map DraftNode.kvObjectId = (nodes.map Prod.fst).map draftObjectId := by
  rw [List.map_map, List.map_map]
  exact List.map_congr_left h.object

theorem Subtree.object_mem (h : Subtree tree v nodes) (id : ℤ) :
    draftObjectId id ∈ (nodes.map Prod.snd).map DraftNode.kvObjectId ↔ tree.Below v id := by
  rw [h.objects, List.mem_map_of_injective draftObjectId_injective, h.mem]

theorem Subtree.distinct (h : Subtree tree v nodes) :
    ((nodes.map Prod.snd).map DraftNode.kvObjectId).Nodup := by
  rw [h.objects]
  exact h.ids.map draftObjectId_injective

theorem Drafted.subtree {base : List MemoryIntentEvent} {count : ℕ} (hdrafted : Drafted tree base count)
    {node : DraftNode} (hnode : tree.nodes.get? v = some node) :
    ∃ descendants nodes, tree.descendants v = .ok descendants ∧
      node :: descendants = nodes.map Prod.snd ∧ Subtree tree v nodes := by
  obtain ⟨descendants, nodes, hdescendants, hnodes, hids, hmem⟩ :=
    DraftTree.subtree_ok hdrafted.acyclic v
  rw [hnode] at hnodes
  refine ⟨descendants, nodes, hdescendants, hnodes, hids, fun id => ?_, fun entry hin => ?_⟩
  · simp only [List.mem_map, Prod.exists, exists_and_right, exists_eq_right, hmem, and_iff_right_iff_imp]
    exact DraftTree.node_of_below hnode
  · exact hdrafted.objectId entry.1 entry.2 ((hmem _ _).mp hin).1

end Subtree

section Verify

variable {tree : DraftTree} {base : List MemoryIntentEvent} {count : ℕ}
  (hdrafted : Drafted tree base count) {random : ℕ → ℚ} {st : LifecycleState} {v : ℤ} {node : DraftNode}
  {current : ValidIntent}
include hdrafted

/-- An accepted node has its subtree rewritten, of which all blocks remain. -/
theorem verifyNode_accepted (hnode : tree.nodes.get? v = some node) (hstep : 0 ≤ st.step)
    (hblock : current.1.blockId = v) (haccepted : random st.draws < node.acceptanceProb)
    (halive : ∀ id, tree.Below v id → Alive st.currentBlocks id) :
    ∃ blocks doomed, verifyNode random tree st v node current =
        .ok (true, doomed, { st with currentBlocks := blocks, draws := st.draws + 1 }) ∧
      (∀ id, ¬tree.Below v id →
        blocks.get? (draftObjectId id) = st.currentBlocks.get? (draftObjectId id)) ∧
      ∀ id, tree.Below v id → Alive blocks id := by
  obtain ⟨descendants, nodes, hdescendants, hnodes, hsubtree⟩ := hdrafted.subtree hnode
  obtain ⟨blocks, hrun, hget⟩ := acceptNodes_get? (node :: descendants) st.currentBlocks
  rw [hnodes] at hget
  have hverify := verifyNode_eq random hstep hnode hblock hdescendants
  dsimp only at hverify
  rw [if_pos haccepted, hrun] at hverify
  refine ⟨blocks, _, hverify, fun id hid => ?_, fun id hid => ?_⟩
  · rw [hget, if_neg ((hsubtree.object_mem id).not.mpr hid)]
  · obtain ⟨block, hsome, hdraft⟩ := halive id hid
    refine ⟨acceptedBlock block, ?_, hdraft.accepted⟩
    rw [hget, if_pos ((hsubtree.object_mem id).mpr hid), hsome]
    rfl

/-- A rejected node has its subtree dropped. The doomed blocks are those of its nodes, and
they are counted. -/
theorem verifyNode_rejected (hnode : tree.nodes.get? v = some node) (hstep : 0 ≤ st.step)
    (hblock : current.1.blockId = v) (hrejected : ¬random st.draws < node.acceptanceProb)
    (halive : ∀ id, tree.Below v id → Alive st.currentBlocks id) :
    ∃ policy blocks doomed, verifyNode random tree st v node current =
        .ok (false, doomed, { st with policy := policy, currentBlocks := blocks, draws := st.draws + 1 }) ∧
      (∀ id, ¬tree.Below v id →
        blocks.get? (draftObjectId id) = st.currentBlocks.get? (draftObjectId id)) ∧
      policy.draftBlocksFreedOnRejection = st.policy.draftBlocksFreedOnRejection + doomed.length ∧
      (doomed.map fun m => m.1.blockId).Nodup ∧
      (∀ id, id ∈ (doomed.map fun m => m.1.blockId) ↔ tree.Below v id) ∧
      ∀ m ∈ doomed, IsDraftBlock m.1.blockId m := by
  obtain ⟨descendants, nodes, hdescendants, hnodes, hsubtree⟩ := hdrafted.subtree hnode
  have hblocks : ∀ entry ∈ nodes, ∃ block, st.currentBlocks.get? entry.2.kvObjectId = some block ∧
      IsDraftBlock entry.1 block := by
    intro entry hin
    rw [hsubtree.object entry hin]
    exact halive entry.1 ((hsubtree.mem entry.1).mp (List.mem_map_of_mem hin))
  obtain ⟨hids, hdoomed⟩ := blocks_of_nodes hblocks
  have hverify := verifyNode_eq random hstep hnode hblock hdescendants
  dsimp only at hverify
  rw [if_neg hrejected, hnodes] at hverify
  refine ⟨_, _, _, hverify, fun id hid => ?_, rejectNodes_count hsubtree.distinct _ _, ?_, ?_, hdoomed⟩
  · rw [rejectNodes_get?, if_neg ((hsubtree.object_mem id).not.mpr hid)]
  · rw [hids]
    exact hsubtree.ids
  · rw [hids]
    exact hsubtree.mem

end Verify

/-! ## The recursion -/

section Freed

variable {doomed : List ValidIntent} {new : List MemoryIntentEvent}
  (hall : List.Forall₂
    (fun (intent : ValidIntent) (e : MemoryIntentEvent) =>
      e.eventType = .freed ∧ ∃ step, e.intent = (touched intent step).1) doomed new)
include hall

theorem freed_blockIds : (new.map fun e => e.intent.blockId) = doomed.map fun m => m.1.blockId := by
  induction hall with
  | nil => rfl
  | cons h _ ih =>
    obtain ⟨-, step, hintent⟩ := h
    rw [List.map_cons, List.map_cons, ih, hintent]
    rfl

theorem mem_freed {e : MemoryIntentEvent} (he : e ∈ new) :
    e.eventType = .freed ∧ ∃ m ∈ doomed, ∃ step, e.intent = (touched m step).1 := by
  induction hall with
  | nil => cases he
  | @cons m _ _ _ h _ ih =>
    rcases List.mem_cons.mp he with rfl | he
    · exact ⟨h.1, m, List.mem_cons_self, h.2⟩
    · obtain ⟨htype, m', hm', hintent⟩ := ih he
      exact ⟨htype, m', List.mem_cons_of_mem m hm', hintent⟩

/-- Frees of the blocks of a subtree settle it. -/
theorem Fates.of_freed {tree : DraftTree} {v : ℤ} (hids : (doomed.map fun m => m.1.blockId).Nodup)
    (hmem : ∀ id, id ∈ (doomed.map fun m => m.1.blockId) ↔ tree.Below v id)
    (hdraft : ∀ m ∈ doomed, IsDraftBlock m.1.blockId m) : Fates tree {id | tree.Below v id} new where
  fate e he := .inr (mem_freed hall he).1
  block e he := by
    obtain ⟨-, m, hm, step, hintent⟩ := mem_freed hall he
    obtain ⟨hobject, -, htiers⟩ := hdraft m hm
    rw [MemoryIntentEvent.objectId, hintent]
    exact ⟨hobject, htiers⟩
  once := by
    rw [freed_blockIds hall]
    exact hids
  complete id := by
    rw [freed_blockIds hall]
    exact hmem id
  committed e he htype := by
    rw [(mem_freed hall he).1] at htype
    cases htype
  freed e he _ id hchild := by
    have hparent : tree.Below v e.intent.blockId := by
      rw [← hmem, ← freed_blockIds hall]
      exact List.mem_map_of_mem he
    have hin : id ∈ new.map fun e => e.intent.blockId := by
      rw [freed_blockIds hall, hmem]
      exact hparent.tail hchild
    obtain ⟨e', he', hname⟩ := List.mem_map.mp hin
    exact ⟨e', he', (mem_freed hall he').1, hname⟩

end Freed

/-- A commit of a node and the fates of the subtrees of its children settle its own. -/
theorem Fates.of_committed {tree : DraftTree} {v : ℤ} {children : List ℤ} {e : MemoryIntentEvent}
    {new : List MemoryIntentEvent} (hacyclic : tree.Acyclic) (hchildren : ∀ c, c ∈ children ↔ tree.Child v c)
    (h : Fates tree {id | ∃ c ∈ children, tree.Below c id} new) (htype : e.eventType = .committed)
    (hname : e.intent.blockId = v) (hobject : e.objectId = draftObjectId v)
    (htiers : e.intent.allowedTiers = {.hbm, .dram}) : Fates tree {id | tree.Below v id} (e :: new) where
  fate e' he' := by
    rcases List.mem_cons.mp he' with rfl | he'
    · exact .inl htype
    · exact h.fate e' he'
  block e' he' := by
    rcases List.mem_cons.mp he' with rfl | he'
    · rw [hname]
      exact ⟨hobject, htiers⟩
    · exact h.block e' he'
  once := by
    rw [List.map_cons, List.nodup_cons, h.complete, hname]
    refine ⟨?_, h.once⟩
    rintro ⟨c, hc, hbelow⟩
    exact hacyclic v (Relation.TransGen.head' ((hchildren c).mp hc) hbelow)
  complete id := by
    rw [List.map_cons, List.mem_cons, h.complete, hname]
    have hcases : tree.Below v id ↔ id = v ∨ ∃ c ∈ children, tree.Below c id := by
      rw [eq_comm]
      simp only [hchildren]
      exact Forest.below_iff
    exact hcases.symm
  committed e' he' htype' p hp hchild := by
    rcases List.mem_cons.mp he' with rfl | he'
    · -- the parent of `v` is not below it
      rw [hname] at hchild
      exact absurd (Relation.TransGen.tail' hp hchild) (hacyclic v)
    · rcases Forest.below_iff.mp hp with rfl | ⟨c, hc, hbelow⟩
      · exact ⟨e, List.mem_cons_self, htype, hname⟩
      · obtain ⟨e'', he'', hfate⟩ := h.committed e' he' htype' p ⟨c, (hchildren c).mpr hc, hbelow⟩ hchild
        exact ⟨e'', List.mem_cons_of_mem e he'', hfate⟩
  freed e' he' htype' id hchild := by
    rcases List.mem_cons.mp he' with rfl | he'
    · rw [htype] at htype'
      cases htype'
    · obtain ⟨e'', he'', hfate⟩ := h.freed e' he' htype' id hchild
      exact ⟨e'', List.mem_cons_of_mem e he'', hfate⟩

/-- The blocks of a subtree are all there. -/
abbrev SubtreeAlive (tree : DraftTree) (v : ℤ) (st : LifecycleState) : Prop :=
  ∀ id, tree.Below v id → Alive st.currentBlocks id

/-- A loop over nodes with disjoint subtrees settles these one after another. -/
theorem resolve_loop {tree : DraftTree} {f : LifecycleState → ℤ → Except LifecycleFailure LifecycleState}
    {vs : List ℤ} (hnodup : vs.Nodup)
    (hdisjoint : ∀ a ∈ vs, ∀ b ∈ vs, ∀ id, tree.Below a id → tree.Below b id → a = b)
    (hone : ∀ v ∈ vs, ∀ st : LifecycleState, 0 ≤ st.step → SubtreeAlive tree v st →
      ∃ st' new, f st v = .ok st' ∧ Resolution tree {id | tree.Below v id} st st' new)
    {st : LifecycleState} (hstep : 0 ≤ st.step) (halive : ∀ v ∈ vs, SubtreeAlive tree v st) :
    ∃ st' new, vs.foldlM f st = .ok st' ∧
      Resolution tree {id | ∃ v ∈ vs, tree.Below v id} st st' new := by
  induction vs generalizing st with
  | nil =>
    refine ⟨st, [], rfl, ?_⟩
    have hnothing : {id | ∃ v ∈ ([] : List ℤ), tree.Below v id} = ∅ := by simp
    rw [hnothing]
    exact .nil st
  | cons v vs ih =>
    rw [List.nodup_cons] at hnodup
    have hothers : ∀ u ∈ vs, ∀ id, tree.Below u id → ¬tree.Below v id := by
      intro u hu id hbelow hbelow'
      have heq := hdisjoint u (List.mem_cons_of_mem v hu) v List.mem_cons_self id hbelow hbelow'
      exact hnodup.1 (heq ▸ hu)
    obtain ⟨t, new, hfirst, hsettled⟩ := hone v List.mem_cons_self st hstep (halive v List.mem_cons_self)
    have htstep : 0 ≤ t.step := by
      rw [hsettled.step]
      omega
    have htalive : ∀ u ∈ vs, SubtreeAlive tree u t := by
      intro u hu id hbelow
      unfold Alive
      rw [hsettled.frame id (hothers u hu id hbelow)]
      exact halive u (List.mem_cons_of_mem v hu) id hbelow
    obtain ⟨st', new', hrest, hsettled'⟩ := ih hnodup.2
      (fun a ha b hb => hdisjoint a (List.mem_cons_of_mem v ha) b (List.mem_cons_of_mem v hb))
      (fun u hu => hone u (List.mem_cons_of_mem v hu)) htstep htalive
    refine ⟨st', new ++ new', ?_, ?_⟩
    · rw [List.foldlM_cons]
      exact Replay.bind_eq_ok.mpr ⟨t, hfirst, hrest⟩
    · have hunion : {id | ∃ u ∈ v :: vs, tree.Below u id} =
          {id | tree.Below v id} ∪ {id | ∃ u ∈ vs, tree.Below u id} := by
        ext id
        simp
      rw [hunion]
      refine hsettled.append hsettled' ?_ ?_ ?_
      · rintro id hbelow ⟨u, hu, hbelow'⟩
        exact hothers u hu id hbelow' hbelow
      · exact fun p hp id hchild => Relation.ReflTransGen.tail hp hchild
      · rintro p ⟨u, hu, hp⟩ id hchild
        exact ⟨u, hu, hp.tail hchild⟩

theorem mem_children {tree : DraftTree} {v c : ℤ} :
    c ∈ ((buildChildren tree).get? (some v)).getD [] ↔ tree.Child v c := by
  rw [mem_buildChildren]
  constructor
  · rintro ⟨node, hnode, hparent⟩
    exact (DraftTree.child_iff hnode).mpr hparent
  · intro hchild
    obtain ⟨node, hnode⟩ := DraftTree.node_of_child hchild
    exact ⟨node, hnode, (DraftTree.child_iff hnode).mp hchild⟩

theorem root_node {tree : DraftTree} {r : ℤ} (hr : r ∈ ((buildChildren tree).get? none).getD []) :
    ∃ node, tree.nodes.get? r = some node := by
  obtain ⟨node, hnode, -⟩ := mem_buildChildren.mp hr
  exact ⟨node, hnode⟩

section Resolve

variable {tree : DraftTree} {base : List MemoryIntentEvent} {count : ℕ}
  (hdrafted : Drafted tree base count) (random : ℕ → ℚ)
include hdrafted

/-- An accepted node is committed, and its children are settled, if each of them can be. -/
theorem resolve_commits {fuel : ℕ} {v : ℤ} {node : DraftNode} (hnode : tree.nodes.get? v = some node)
    {st : LifecycleState} (hstep : 0 ≤ st.step) (halive : SubtreeAlive tree v st)
    (haccepted : random st.draws < node.acceptanceProb)
    (hone : ∀ c ∈ ((buildChildren tree).get? (some v)).getD [], ∀ st : LifecycleState, 0 ≤ st.step →
      SubtreeAlive tree c st → ∃ st' new, resolve random tree (buildChildren tree) fuel st c = .ok st' ∧
        Resolution tree {id | tree.Below c id} st st' new) :
    ∃ st' new, resolve random tree (buildChildren tree) (fuel + 1) st v = .ok st' ∧
      Resolution tree {id | tree.Below v id} st st' new := by
  obtain ⟨current, hcurrent, hblock⟩ := halive v .refl
  have hobject := hdrafted.objectId v node hnode
  obtain ⟨blocks, doomed, hverify, hframe, halive'⟩ :=
    verifyNode_accepted hdrafted hnode hstep hblock.blockId haccepted halive
  obtain ⟨committed, hcommitted, hblock'⟩ := halive' v .refl
  let verified : LifecycleState := { st with currentBlocks := blocks, draws := st.draws + 1 }
  have hvstep : 0 ≤ verified.step := hstep
  obtain ⟨e, hemit, he, htype, hintent⟩ := emit_ok hvstep .committed committed "speculative draft accepted"
  let next : LifecycleState :=
    { verified with lifecycleEvents := verified.lifecycleEvents ++ [e], step := verified.step + 1 }
  have hnext : 0 ≤ next.step := by
    have hdef : next.step = st.step + 1 := rfl
    omega
  obtain ⟨st', new, hrun, hsettled⟩ := resolve_loop (nodup_buildChildren tree (some v))
    (fun a ha b hb id => hdrafted.siblings_disjoint ha hb) hone hnext
    (fun c hc id hbelow => halive' id (hbelow.head (mem_children.mp hc)))
  have hname : e.intent.blockId = v := by
    rw [hintent]
    exact hblock'.blockId
  have hobject' : e.objectId = draftObjectId v := by
    rw [MemoryIntentEvent.objectId, hintent]
    exact hblock'.objectId
  have htiers : e.intent.allowedTiers = {.hbm, .dram} := by
    rw [hintent]
    exact hblock'.allowedTiers
  refine ⟨st', e :: new, ?_, ?_⟩
  · rw [resolve_accepted hnode (hobject ▸ hcurrent) hverify (hobject ▸ hcommitted) hemit]
    exact hrun
  · refine
      { fates := .of_committed hdrafted.acyclic (fun _ => mem_children) hsettled.fates htype hname hobject' htiers
        events := ?_
        step := ?_
        steps := .cons he hsettled.steps
        count := ?_
        frame := fun id hid => ?_ }
    · rw [hsettled.events]
      exact List.append_assoc _ _ _
    · rw [hsettled.step, List.length_cons]
      push_cast
      ring
    · rw [hsettled.count, List.countP_cons_of_neg (by simp [htype])]
    · have hbelow : ¬tree.Below v id := hid
      rw [hsettled.frame id, hframe id hbelow]
      rintro ⟨c, hc, hcid⟩
      exact hbelow (hcid.head (mem_children.mp hc))

/-- A rejected node is freed with all that is below it. -/
theorem resolve_frees {fuel : ℕ} {v : ℤ} {node : DraftNode} (hnode : tree.nodes.get? v = some node)
    {st : LifecycleState} (hstep : 0 ≤ st.step) (halive : SubtreeAlive tree v st)
    (hrejected : ¬random st.draws < node.acceptanceProb) :
    ∃ st' new, resolve random tree (buildChildren tree) (fuel + 1) st v = .ok st' ∧
      Resolution tree {id | tree.Below v id} st st' new := by
  obtain ⟨current, hcurrent, hblock⟩ := halive v .refl
  have hobject := hdrafted.objectId v node hnode
  obtain ⟨policy, blocks, doomed, hverify, hframe, hcount, hids, hmem, hdraft⟩ :=
    verifyNode_rejected hdrafted hnode hstep hblock.blockId hrejected halive
  let verified : LifecycleState :=
    { st with policy := policy, currentBlocks := blocks, draws := st.draws + 1 }
  have hvstep : 0 ≤ verified.step := hstep
  obtain ⟨new, hfree, hsteps, hall⟩ := freeSubtree_ok hvstep doomed
  let last : LifecycleState :=
    { verified with lifecycleEvents := verified.lifecycleEvents ++ new, step := verified.step + new.length }
  have hresolve : resolve random tree (buildChildren tree) (fuel + 1) st v = .ok last := by
    rw [resolve_rejected hnode (hobject ▸ hcurrent) hverify, hfree]
    rfl
  have hfreed : new.countP (fun e => e.eventType = .freed) = doomed.length := by
    rw [hall.length_eq, List.countP_eq_length]
    exact fun e he => decide_eq_true (mem_freed hall he).1
  refine ⟨last, new, hresolve, .of_freed hall hids hmem hdraft, rfl, rfl, hsteps, ?_, hframe⟩
  rw [hfreed]
  exact hcount

/-- The recursion settles the subtree of its node. The fuel lasts, since the names of nodes grow on
the way down. -/
theorem resolve_ok {fuel : ℕ} {v : ℤ} {node : DraftNode} (hnode : tree.nodes.get? v = some node)
    (hfuel : count ≤ fuel + v) {st : LifecycleState} (hstep : 0 ≤ st.step) (halive : SubtreeAlive tree v st) :
    ∃ st' new, resolve random tree (buildChildren tree) fuel st v = .ok st' ∧
      Resolution tree {id | tree.Below v id} st st' new := by
  induction fuel generalizing v node st with
  | zero =>
    have hbounds := hdrafted.bounds hnode
    rw [Nat.cast_zero] at hfuel
    omega
  | succ fuel ih =>
    by_cases haccepted : random st.draws < node.acceptanceProb
    · refine resolve_commits hdrafted random hnode hstep halive haccepted fun c hc t ht htalive => ?_
      obtain ⟨child, hchild⟩ := DraftTree.node_of_child (mem_children.mp hc)
      have hlt := hdrafted.child_lt (mem_children.mp hc)
      refine ih hchild ?_ ht htalive
      push_cast at hfuel
      omega
    · exact resolve_frees hdrafted random hnode hstep halive haccepted

end Resolve

/-! ## The whole trace -/

/-- The block of an object is that of one of its events. -/
theorem initialBlocks_get? {events : List MemoryIntentEvent} {objectId : String}
    (h : ∃ e ∈ events, e.objectId = objectId) :
    ∃ e ∈ events, e.objectId = objectId ∧
      (initialBlocks events).get? objectId = some ⟨e.intent, e.intent_valid⟩ := by
  induction events using List.reverseRecOn with
  | nil => simp at h
  | append_singleton events last ih =>
    rw [initialBlocks, List.foldl_append, List.foldl_cons, List.foldl_nil, OrderedDict.get?_set]
    by_cases heq : objectId = last.intent.objectId
    · exact ⟨last, by simp, heq.symm, if_pos heq⟩
    · obtain ⟨e, he, hobject⟩ := h
      have hin : e ∈ events := by
        rcases List.mem_append.mp he with he | he
        · exact he
        · cases List.mem_singleton.mp he
          exact absurd hobject.symm heq
      obtain ⟨e', he', hobject', hget⟩ := ih ⟨e, hin, hobject⟩
      exact ⟨e', List.mem_append_left _ he', hobject', (if_neg heq).trans hget⟩

section Trace

open KVMemorySimulator

variable {tree : DraftTree} {base : List MemoryIntentEvent} {count : ℕ}
  (hdrafted : Drafted tree base count)
include hdrafted

/-- At the start all nodes have a block. -/
theorem Drafted.alive {id : ℤ} {node : DraftNode} (hnode : tree.nodes.get? id = some node) :
    Alive (initialBlocks base) id := by
  have hstanding := hdrafted.standing id (OrderedDict.mem_keys_iff.mpr ⟨node, hnode⟩)
  have hnamed : ∃ e ∈ base, e.objectId = draftObjectId id := by
    by_contra hnone
    have hnone' : ∀ e ∈ base, e.objectId ≠ draftObjectId id := fun e he hid => hnone ⟨e, he, hid⟩
    rw [Standing.foldl_unnamed hnone'] at hstanding
    cases hstanding
  obtain ⟨e, he, hobject, hget⟩ := initialBlocks_get? hnamed
  have hdraft := (hdrafted.drafts e he).1
  refine ⟨_, hget, hobject, ?_, hdraft.allowedTiers⟩
  exact draftObjectId_injective (hdraft.objectId.symm.trans hobject)

/-- The subtrees of the roots are the tree. -/
theorem Drafted.below_roots :
    {id | ∃ r ∈ ((buildChildren tree).get? none).getD [], tree.Below r id} = {id | id ∈ tree.nodes.keys} := by
  ext id
  constructor
  · rintro ⟨r, hr, hbelow⟩
    obtain ⟨node, hnode⟩ := root_node hr
    exact OrderedDict.mem_keys_iff.mpr (DraftTree.node_of_below hnode hbelow)
  · intro hid
    obtain ⟨node, hnode⟩ := OrderedDict.mem_keys_iff.mp hid
    exact hdrafted.rooted hnode

theorem Drafted.length_entries : tree.nodes.entries.length = count := by
  simpa [OrderedDict.keys] using congrArg List.length hdrafted.keys

/-- The trace goes on with the fates of all nodes. -/
theorem lifecycle_ok {gauss : ℕ → ℚ} {treeWidth treeDepth : ℤ} (random : ℕ → ℚ)
    (h : generateSpeculativeWorkload gauss treeWidth treeDepth = .ok (tree, base)) :
    ∃ new policy, generateSpeculativeLifecycleTrace gauss random treeWidth treeDepth =
        .ok (tree, base ++ new, policy) ∧
      Fates tree {id | id ∈ tree.nodes.keys} new ∧
      policy.draftBlocksFreedOnRejection = new.countP fun e => e.eventType = .freed := by
  let start : LifecycleState :=
    { currentBlocks := initialBlocks base
      lifecycleEvents := base
      step := (base.map MemoryIntentEvent.step).max?.getD (-1) + 1 }
  have hstart : start.step = base.length := hdrafted.steps.next
  have hone : ∀ r ∈ ((buildChildren tree).get? none).getD [], ∀ st : LifecycleState, 0 ≤ st.step →
      SubtreeAlive tree r st → ∃ st' new,
        resolve random tree (buildChildren tree) (tree.nodes.entries.length + 1) st r = .ok st' ∧
          Resolution tree {id | tree.Below r id} st st' new := by
    intro r hr st hst halive
    obtain ⟨node, hnode⟩ := root_node hr
    refine resolve_ok hdrafted random hnode ?_ hst halive
    have hbounds := hdrafted.bounds hnode
    rw [hdrafted.length_entries]
    push_cast
    omega
  have hstep : 0 ≤ start.step := by
    rw [hstart]
    exact Int.natCast_nonneg _
  have halive : ∀ r ∈ ((buildChildren tree).get? none).getD [], SubtreeAlive tree r start := by
    intro r hr id hbelow
    obtain ⟨node, hnode⟩ := root_node hr
    obtain ⟨other, hother⟩ := DraftTree.node_of_below hnode hbelow
    exact hdrafted.alive hother
  obtain ⟨st, new, hrun, hsettled⟩ := resolve_loop (nodup_buildChildren tree none)
    (fun a ha b hb id => hdrafted.siblings_disjoint ha hb) hone hstep halive
  have hsteps : StepsFrom 0 (base ++ new) := by
    refine hdrafted.steps.append ?_
    rw [zero_add, ← hstart]
    exact hsettled.steps
  have hsorted : st.lifecycleEvents.mergeSort (fun a b => a.step ≤ b.step) = base ++ new := by
    rw [hsettled.events]
    exact List.mergeSort_of_pairwise (hsteps.pairwise.imp decide_eq_true)
  refine ⟨new, st.policy, ?_, hdrafted.below_roots ▸ hsettled.fates, ?_⟩
  · unfold generateSpeculativeLifecycleTrace
    rw [h]
    refine Replay.bind_eq_ok.mpr ⟨(tree, base), rfl, Replay.bind_eq_ok.mpr ⟨st, hrun, ?_⟩⟩
    rw [hsorted]
  · rw [hsettled.count]
    exact zero_add _

/-- The events of the generator decide about no draft. -/
theorem Drafted.undecided : ∀ e ∈ base, e.eventType ≠ .committed ∧ e.eventType ≠ .freed := by
  intro e he
  rcases hdrafted.eventType e he with htype | htype <;> simp [htype]

theorem Drafted.late {new : List MemoryIntentEvent} {e : MemoryIntentEvent} (he : e ∈ base ++ new)
    (htype : e.eventType = .committed ∨ e.eventType = .freed) : e ∈ new := by
  rcases List.mem_append.mp he with hin | hin
  · have hundecided := hdrafted.undecided e hin
    simp [hundecided] at htype
  · exact hin

/-- A node has one terminal event in the trace. -/
theorem Drafted.one_terminal {new : List MemoryIntentEvent}
    (hfates : Fates tree {id | id ∈ tree.nodes.keys} new) {id : ℤ} {node : DraftNode}
    (hnode : tree.nodes.get? id = some node) :
    ∃ e, (base ++ new).filter (fun e =>
      e.intent.blockId = id ∧ (e.eventType = .committed ∨ e.eventType = .freed)) = [e] ∧
        e.objectId = node.kvObjectId := by
  obtain ⟨e, hone⟩ := hfates.one (OrderedDict.mem_keys_iff.mpr ⟨node, hnode⟩)
  have hin : e ∈ new ∧ e.intent.blockId = id := by
    have hmem : e ∈ new.filter fun e => e.intent.blockId = id := by simp [hone]
    simpa using hmem
  refine ⟨e, ?_, ?_⟩
  · have hearly : base.filter (fun e => e.intent.blockId = id ∧
        (e.eventType = .committed ∨ e.eventType = .freed)) = [] := by
      rw [List.filter_eq_nil_iff]
      intro e he
      simp [hdrafted.undecided e he]
    have hlate : new.filter (fun e => e.intent.blockId = id ∧
        (e.eventType = .committed ∨ e.eventType = .freed)) = [e] := by
      rw [← hone]
      refine List.filter_congr fun e he => ?_
      simp [hfates.fate e he]
    rw [List.filter_append, hearly, hlate, List.nil_append]
  · rw [hdrafted.objectId id node hnode, (hfates.block e hin.1).1, hin.2]

/-- Whether the block of an object is live at the end, and how it stands. -/
theorem Drafted.final_standing {new : List MemoryIntentEvent}
    (hfates : Fates tree {id | id ∈ tree.nodes.keys} new) (objectId : String) :
    (base ++ new).foldl (Standing.after objectId) none =
      if ∃ e ∈ new, e.eventType = .committed ∧ e.objectId = objectId then some ⟨false, true⟩ else none := by
  by_cases hname : ∃ id ∈ tree.nodes.keys, draftObjectId id = objectId
  · obtain ⟨id, hid, rfl⟩ := hname
    obtain ⟨e, hone⟩ := hfates.one hid
    have hsame : new.filter (fun e => e.objectId = draftObjectId id) = [e] := by
      rw [← hone]
      refine List.filter_congr fun e he => ?_
      simp only [(hfates.block e he).1, draftObjectId_injective.eq_iff]
    have hmem : e ∈ new ∧ e.objectId = draftObjectId id := by
      have hin : e ∈ new.filter fun e => e.objectId = draftObjectId id := by simp [hsame]
      simpa using hin
    have hunique : ∀ e' ∈ new, e'.objectId = draftObjectId id → e' = e := by
      intro e' he' hobject
      have hin : e' ∈ new.filter fun e => e.objectId = draftObjectId id := by simp [he', hobject]
      simpa [hsame] using hin
    rw [List.foldl_append, hdrafted.standing id hid, Standing.foldl_filter, hsame]
    rcases hfates.fate e hmem.1 with htype | htype
    · rw [if_pos ⟨e, hmem.1, htype, hmem.2⟩]
      simp [Standing.after, hmem.2, htype]
    · rw [if_neg]
      · simp [Standing.after, hmem.2, htype]
      · rintro ⟨e', he', htype', hobject⟩
        rw [hunique e' he' hobject, htype] at htype'
        cases htype'
  · have hbase : ∀ e ∈ base, e.objectId ≠ objectId := fun e he hobject =>
      hname ⟨e.intent.blockId, (hdrafted.drafts e he).2, (hdrafted.drafts e he).1.objectId ▸ hobject⟩
    have hnew : ∀ e ∈ new, e.objectId ≠ objectId := fun e he hobject =>
      hname ⟨e.intent.blockId, hfates.mem_settled he, (hfates.block e he).1 ▸ hobject⟩
    rw [List.foldl_append, Standing.foldl_unnamed hbase, Standing.foldl_unnamed hnew, if_neg]
    rintro ⟨e, he, -, hobject⟩
    exact hnew e he hobject

/-- A replay ends with the committed blocks live, and no others. -/
theorem Drafted.replay {new : List MemoryIntentEvent}
    (hfates : Fates tree {id | id ∈ tree.nodes.keys} new) (sim : KVMemorySimulator) (order : SetOrder) :
    ∃ s result, sim.run order SimulatorState.initial (base ++ new) = .ok (s, result) ∧
      (∀ objectId, objectId ∈ s.liveBlocks.keys ↔
        ∃ e ∈ new, e.eventType = .committed ∧ e.objectId = objectId) ∧
      ∀ objectId b, s.liveBlocks.get? objectId = some b → b.isCommitted = true ∧ b.isDraft = false := by
  have htiers : ∀ e ∈ base ++ new, e.intent.allowedTiers = {.hbm, .dram} := by
    intro e he
    rcases List.mem_append.mp he with he | he
    · exact (hdrafted.drafts e he).1.allowedTiers
    · exact (hfates.block e he).2
  have htypes : ∀ e ∈ base ++ new, e.eventType ≠ .prefetched := by
    intro e he
    rcases List.mem_append.mp he with he | he
    · rcases hdrafted.eventType e he with htype | htype <;> simp [htype]
    · rcases hfates.fate e he with htype | htype <;> simp [htype]
  obtain ⟨s, result, hrun⟩ := run_total_of_everywhere sim order (by simp) ⟨.dram, by simp, by simp⟩ htiers
  have hstanding : ∀ objectId, s.standing objectId =
      if ∃ e ∈ new, e.eventType = .committed ∧ e.objectId = objectId then some ⟨false, true⟩ else none := by
    intro objectId
    rw [replay_standing SimulatorState.consistent_initial htypes (run_ok hrun).1 objectId]
    exact hdrafted.final_standing hfates objectId
  refine ⟨s, result, hrun, fun objectId => ?_, fun objectId b hb => ?_⟩
  · have hsome : (s.liveBlocks.get? objectId).isSome = (s.standing objectId).isSome := Option.isSome_map.symm
    rw [OrderedDict.mem_keys_iff, ← Option.isSome_iff_exists, hsome, hstanding, Option.isSome_ite]
  · have hlive := hstanding objectId
    rw [SimulatorState.standing, hb, Option.map_some] at hlive
    split at hlive
    · have hfields := Option.some.inj hlive
      exact ⟨congrArg Standing.isCommitted hfields, congrArg Standing.isDraft hfields⟩
    · cases hlive

end Trace

/-- Each draft is committed or freed once: a committed one has a committed parent, and all below a
freed one are freed. The policy has counted the frees, and a replay leaves the committed blocks live. -/
theorem drafts_meet_one_fate {gauss : ℕ → ℚ} {treeWidth treeDepth : ℤ} {tree : DraftTree}
    {base : List MemoryIntentEvent} (random : ℕ → ℚ)
    (h : generateSpeculativeWorkload gauss treeWidth treeDepth = .ok (tree, base)) :
    ∃ events policy,
      generateSpeculativeLifecycleTrace gauss random treeWidth treeDepth = .ok (tree, events, policy) ∧
      (∀ id node, tree.nodes.get? id = some node → ∃ e,
        events.filter (fun e => e.intent.blockId = id ∧ (e.eventType = .committed ∨ e.eventType = .freed)) =
          [e] ∧ e.objectId = node.kvObjectId) ∧
      (∀ e ∈ events, e.eventType = .committed → ∀ p, tree.Child p e.intent.blockId →
        ∃ e' ∈ events, e'.eventType = .committed ∧ e'.intent.blockId = p) ∧
      (∀ e ∈ events, e.eventType = .freed → ∀ id, Relation.TransGen tree.Child e.intent.blockId id →
        ∃ e' ∈ events, e'.eventType = .freed ∧ e'.intent.blockId = id) ∧
      policy.draftBlocksFreedOnRejection = events.countP (fun e => e.eventType = .freed) ∧
      ∀ (sim : KVMemorySimulator) (order : SetOrder), ∃ s result,
        sim.run order SimulatorState.initial events = .ok (s, result) ∧
        (∀ objectId, objectId ∈ s.liveBlocks.keys ↔
          ∃ e ∈ events, e.eventType = .committed ∧ e.objectId = objectId) ∧
        ∀ objectId b, s.liveBlocks.get? objectId = some b → b.isCommitted = true ∧ b.isDraft = false := by
  obtain ⟨count, hdrafted⟩ := generateSpeculativeWorkload_drafted h
  obtain ⟨new, policy, htrace, hfates, hcount⟩ := lifecycle_ok hdrafted random h
  have hcommitted : ∀ objectId, (∃ e ∈ base ++ new, e.eventType = .committed ∧ e.objectId = objectId) ↔
      ∃ e ∈ new, e.eventType = .committed ∧ e.objectId = objectId := by
    intro objectId
    constructor
    · rintro ⟨e, he, htype, hobject⟩
      exact ⟨e, hdrafted.late he (.inl htype), htype, hobject⟩
    · rintro ⟨e, he, hfate⟩
      exact ⟨e, List.mem_append_right base he, hfate⟩
  refine ⟨base ++ new, policy, htrace, fun id node hnode => hdrafted.one_terminal hfates hnode, ?_, ?_, ?_, ?_⟩
  · intro e he htype p hchild
    have hin := hdrafted.late he (.inl htype)
    have hp := OrderedDict.mem_keys_iff.mpr (hdrafted.parent_node hchild)
    obtain ⟨e', he', hfate⟩ := hfates.committed e hin htype p hp hchild
    exact ⟨e', List.mem_append_right base he', hfate⟩
  · intro e he htype id hbelow
    have hin := hdrafted.late he (.inr htype)
    obtain ⟨e', he', hfate⟩ := hfates.freed_below hin htype hbelow
    exact ⟨e', List.mem_append_right base he', hfate⟩
  · have hnone : base.countP (fun e => e.eventType = .freed) = 0 := by
      rw [List.countP_eq_zero]
      intro e he
      simp [hdrafted.undecided e he]
    rw [List.countP_append, hnone, zero_add, hcount]
  · intro sim order
    obtain ⟨s, result, hrun, hlive, hfields⟩ := hdrafted.replay hfates sim order
    exact ⟨s, result, hrun, fun objectId => (hlive objectId).trans (hcommitted objectId).symm, hfields⟩

/-- Three roots with three children each, all of which are accepted. -/
theorem drafts_meet_one_fate_two_levels :
    ∃ tree base, generateSpeculativeWorkload (fun _ => 7 / 10) 3 2 = .ok (tree, base) ∧
      tree.nodes.keys.length = 12 ∧ ∃ events policy,
        generateSpeculativeLifecycleTrace (fun _ => 7 / 10) (fun n : ℕ => if n % 2 = 0 then 0 else 1) 3 2 =
          .ok (tree, events, policy) ∧
        (∀ id node, tree.nodes.get? id = some node → ∃ e, events.filter (fun e =>
          e.intent.blockId = id ∧ (e.eventType = .committed ∨ e.eventType = .freed)) = [e] ∧
            e.objectId = node.kvObjectId) ∧
        policy.draftBlocksFreedOnRejection = events.countP fun e => e.eventType = .freed := by
  have hsize : (generateSpeculativeWorkload (fun _ => 7 / 10) 3 2).toOption.map
      (fun result => result.1.nodes.keys.length) = some 12 := by decide +kernel
  have hshape : (2 : ℤ) ≤ 11 ∨ (3 : ℤ) ≤ 0 := by omega
  obtain ⟨tree, base, h⟩ := generateSpeculativeWorkload_total (fun _ => 7 / 10) hshape
  rw [h] at hsize
  obtain ⟨events, policy, htrace, hone, -, -, hcount, -⟩ :=
    drafts_meet_one_fate (fun n : ℕ => if n % 2 = 0 then 0 else 1) h
  exact ⟨tree, base, h, Option.some.inj hsize, events, policy, htrace, hone, hcount⟩

end KVMemoryIntent
