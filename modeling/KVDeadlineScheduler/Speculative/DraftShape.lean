-- SUMMARY: The shape of a generated draft tree: every level full, two events for each node, and how deep a tree can be asked for.
import KVDeadlineScheduler.Speculative.DraftWorkload

/-!
# The shape of a draft tree

The queue holds the nodes that are still to get their children, so what a node
has and what the queue owes it add up to the width. A node's recency falls by a
tenth with each level and may not be negative, so there is no twelfth level.
-/

namespace KVMemoryIntent

/-- The number of nodes of a full tree below one parent. -/
def levelsSize (width : ℕ) : ℕ → ℕ
  | 0 => 0
  | levels + 1 => width * (1 + levelsSize width levels)

theorem levelsSize_eq_sum (width levels : ℕ) :
    levelsSize width levels = ∑ k ∈ Finset.range levels, width ^ (k + 1) := by
  induction levels with
  | zero => rfl
  | succ levels ih =>
    rw [levelsSize, ih, Finset.sum_range_succ', Nat.mul_add, Finset.mul_sum, Nat.add_comm]
    simp only [pow_succ', zero_add, pow_zero, mul_one]

def childCount (tree : DraftTree) (id : ℤ) : ℕ :=
  (Forest.children tree.nodes.entries DraftNode.parentId id).length

/-- A node of a level below the first has a parent in the level above, created before it. -/
structure Placed (treeDepth : ℕ) (tree : DraftTree) (id : ℤ) (node : DraftNode) : Prop where
  depth_nonneg : 0 ≤ node.depth
  depth_lt : node.depth < treeDepth
  root : node.depth = 0 → node.parentId = none
  below : 0 < node.depth → ∃ p parent, node.parentId = some p ∧ p < id ∧
    tree.nodes.get? p = some parent ∧ parent.depth = node.depth - 1

/-- The two events of the node `i`. -/
def EventPair (events : List MemoryIntentEvent) (i : ℕ) : Prop :=
  ∃ allocated accessed, events[2 * i]? = some allocated ∧ events[2 * i + 1]? = some accessed ∧
    allocated.eventType = .allocated ∧ accessed.eventType = .accessed ∧
    ∀ e ∈ [allocated, accessed], e.objectId = draftObjectId i ∧ e.intent.blockId = i

/-- The tree of a width and a depth with all its levels full, and its events. -/
structure FullTree (treeWidth treeDepth : ℕ) (tree : DraftTree) (events : List MemoryIntentEvent) :
    Prop where
  ids : tree.nodes.keys =
    (List.range (∑ k ∈ Finset.range treeDepth, treeWidth ^ (k + 1))).map fun n : ℕ => (n : ℤ)
  placed : ∀ id node, tree.nodes.get? id = some node → Placed treeDepth tree id node
  children : ∀ id node, tree.nodes.get? id = some node → node.depth + 1 < treeDepth →
    childCount tree id = treeWidth
  length : events.length = 2 * tree.nodes.keys.length
  pairs : ∀ i < tree.nodes.keys.length, EventPair events i
  steps : StepsFrom 0 events

/-! ## The generator between two nodes -/

/-- Where the children of `parentId` go: they are roots, or the next level below it. -/
def Seat (treeDepth : ℕ) (tree : DraftTree) (parentId : Option ℤ) (depth : ℤ) : Prop :=
  parentId = none ∧ depth = 0 ∨
  ∃ p node, parentId = some p ∧ tree.nodes.get? p = some node ∧ node.depth + 1 = depth ∧
    depth < treeDepth

/-- The generator while `parentId` misses some of its children. What is there and what is still to
come make a full tree. -/
structure Filling (treeWidth treeDepth : ℕ) (parentId : Option ℤ) (depth : ℤ) (missing : ℕ)
    (st : WorkloadState) : Prop where
  count : st.nodeId + missing * (1 + levelsSize treeWidth ((treeDepth : ℤ) - (depth + 1)).toNat) +
    (st.frontier.map fun entry => levelsSize treeWidth ((treeDepth : ℤ) - entry.2).toNat).sum =
      levelsSize treeWidth treeDepth
  placed : ∀ id node, st.tree.nodes.get? id = some node → Placed treeDepth st.tree id node
  children : ∀ id node, st.tree.nodes.get? id = some node → node.depth + 1 < treeDepth →
    childCount st.tree id + (if parentId = some id then missing else 0) +
      treeWidth * st.frontier.countP (fun entry => entry.1 = some id) = treeWidth
  queue : ∀ entry ∈ st.frontier, Seat treeDepth st.tree entry.1 entry.2
  shallow : ∀ id node, st.tree.nodes.get? id = some node → node.depth ≤ 10
  length : st.events.length = 2 * st.nodeId
  pairs : ∀ i < st.nodeId, EventPair st.events i

section Nodes

variable {gauss : ℕ → ℚ} {treeWidth treeDepth : ℕ} {depth : ℤ} {parentId : Option ℤ}
  {st st' : WorkloadState}

/-- The node that is added, which cannot be deeper than its recency allows. -/
theorem addNode_node (h : addNode gauss treeDepth parentId depth st = .ok st') :
    ∃ node, st'.tree.nodes = st.tree.nodes.set st.nodeId node ∧ node.parentId = parentId ∧
      node.depth = depth ∧ depth ≤ 10 := by
  obtain ⟨intent, hintent, h⟩ := Replay.bind_eq_ok.mp h
  obtain ⟨allocated, hallocated, h⟩ := Replay.bind_eq_ok.mp h
  obtain ⟨verified, hverified, h⟩ := Replay.bind_eq_ok.mp h
  obtain ⟨accessed, haccessed, h⟩ := Replay.bind_eq_ok.mp h
  cases h
  refine ⟨_, rfl, rfl, rfl, ?_⟩
  have hrecency := intent.2.recencyScore_range.1
  rw [MemoryIntent.validated_fields hintent] at hrecency
  have hdepth : (0 : ℚ) ≤ 1 - depth * (1 / 10) := hrecency
  have hcast : (depth : ℚ) ≤ 10 := by linarith
  exact_mod_cast hcast

theorem Placed.mono {tree tree' : DraftTree} {id : ℤ} {node : DraftNode}
    (h : Placed treeDepth tree id node)
    (hsub : ∀ p parent, tree.nodes.get? p = some parent → tree'.nodes.get? p = some parent) :
    Placed treeDepth tree' id node := by
  refine ⟨h.depth_nonneg, h.depth_lt, h.root, fun hpos => ?_⟩
  obtain ⟨p, parent, hparent, hlt, hget, hdepth⟩ := h.below hpos
  exact ⟨p, parent, hparent, hlt, hsub p parent hget, hdepth⟩

theorem Seat.mono {tree tree' : DraftTree} (h : Seat treeDepth tree parentId depth)
    (hsub : ∀ p parent, tree.nodes.get? p = some parent → tree'.nodes.get? p = some parent) :
    Seat treeDepth tree' parentId depth := by
  rcases h with h | ⟨p, node, hp, hget, hdepth⟩
  · exact .inl h
  · exact .inr ⟨p, node, hp, hsub p node hget, hdepth⟩

theorem EventPair.append {events new : List MemoryIntentEvent} {i : ℕ} (h : EventPair events i) :
    EventPair (events ++ new) i := by
  obtain ⟨allocated, accessed, hfirst, hsecond, hrest⟩ := h
  have hlt : 2 * i < events.length := (List.getElem?_eq_some_iff.mp hfirst).1
  have hlt' : 2 * i + 1 < events.length := (List.getElem?_eq_some_iff.mp hsecond).1
  exact ⟨allocated, accessed, by rwa [List.getElem?_append_left hlt],
    by rwa [List.getElem?_append_left hlt'], hrest⟩

/-- A new node is a child of its parent only. -/
theorem childCount_set {tree : DraftTree} {n : ℤ} {node : DraftNode} (hfresh : n ∉ tree.nodes.keys)
    (id : ℤ) :
    childCount { nodes := tree.nodes.set n node } id =
      childCount tree id + if node.parentId = some id then 1 else 0 := by
  simp only [childCount, Forest.children, OrderedDict.entries_set_of_notMem node hfresh,
    List.filter_append, List.length_append]
  by_cases hparent : node.parentId = some id <;> simp [hparent]

/-- No node is below a node that is yet to come. -/
theorem childCount_of_new {tree : DraftTree} {events : List MemoryIntentEvent} {count : ℕ}
    (h : Drafted tree events count) : childCount tree count = 0 := by
  rw [childCount, List.length_eq_zero_iff, Forest.children, List.filter_eq_nil_iff]
  intro entry hentry hparent
  have hget := OrderedDict.get?_eq_some_iff.mpr hentry
  have hlt := (h.parent entry.1 entry.2 count hget (by simpa using hparent)).2
  have hmem : entry.1 ∈ tree.nodes.keys := OrderedDict.mem_keys_iff.mpr ⟨_, hget⟩
  have := ((h.mem_keys entry.1).mp hmem).2
  omega

/-- The queue after a new node. -/
theorem addNode_frontier (h : addNode gauss treeDepth parentId depth st = .ok st') :
    st'.frontier = st.frontier ∧ treeDepth ≤ depth + 1 ∨
      st'.frontier = st.frontier ++ [(some (st.nodeId : ℤ), depth + 1)] ∧ depth + 1 < treeDepth := by
  obtain ⟨-, -, -, -, -, -, -, -, -, -, -, hfrontier⟩ := addNode_ok h
  rw [hfrontier]
  split
  · exact .inr ⟨rfl, ‹_›⟩
  · exact .inl ⟨rfl, by omega⟩

/-- What the queue stands for grows by the subtree of the new node. -/
theorem addNode_queued (h : addNode gauss treeDepth parentId depth st = .ok st') :
    (st'.frontier.map fun entry => levelsSize treeWidth ((treeDepth : ℤ) - entry.2).toNat).sum =
      (st.frontier.map fun entry => levelsSize treeWidth ((treeDepth : ℤ) - entry.2).toNat).sum +
        levelsSize treeWidth ((treeDepth : ℤ) - (depth + 1)).toNat := by
  rcases addNode_frontier h with ⟨hfrontier, hlast⟩ | ⟨hfrontier, -⟩
  · have hnone : ((treeDepth : ℤ) - (depth + 1)).toNat = 0 := by omega
    rw [hfrontier, hnone]
    rfl
  · simp [hfrontier]

/-- A new node that is no leaf waits for its children. -/
theorem addNode_waits (hst : Growing st) (hdeeper : depth + 1 < treeDepth)
    (h : addNode gauss treeDepth parentId depth st = .ok st') :
    st'.frontier.countP (fun entry => entry.1 = some (st.nodeId : ℤ)) = 1 := by
  have hnone : st.frontier.countP (fun entry => entry.1 = some (st.nodeId : ℤ)) = 0 := by
    rw [List.countP_eq_zero]
    rintro ⟨p, d⟩ hentry hp
    obtain rfl : p = some (st.nodeId : ℤ) := by simpa using hp
    have := (hst.frontier _ _ hentry).2
    omega
  rcases addNode_frontier h with ⟨-, hlast⟩ | ⟨hfrontier, -⟩
  · omega
  · rw [hfrontier, List.countP_append, hnone]
    simp

theorem addNode_waits_of_ne {id : ℤ} (hne : id ≠ st.nodeId)
    (h : addNode gauss treeDepth parentId depth st = .ok st') :
    st'.frontier.countP (fun entry => entry.1 = some id) =
      st.frontier.countP fun entry => entry.1 = some id := by
  rcases addNode_frontier h with ⟨hfrontier, -⟩ | ⟨hfrontier, -⟩
  · rw [hfrontier]
  · rw [hfrontier, List.countP_append, List.countP_singleton]
    simp [hne.symm]

/-- The two events of a new node are its pair. -/
theorem addNode_pair (hlength : st.events.length = 2 * st.nodeId)
    (h : addNode gauss treeDepth parentId depth st = .ok st') :
    st'.events.length = 2 * st'.nodeId ∧ EventPair st'.events st.nodeId ∧
      ∀ i, EventPair st.events i → EventPair st'.events i := by
  obtain ⟨-, allocated, accessed, -, ⟨-, htype⟩, ⟨-, htype'⟩, hdrafts, -, hevents, hnodeId, -, -⟩ :=
    addNode_ok h
  rw [hevents, hnodeId]
  refine ⟨by simp [hlength, Nat.mul_add], ⟨allocated, accessed, ?_, ?_, htype, htype', ?_⟩,
    fun i hi => hi.append⟩
  · simp [← hlength]
  · simp [← hlength]
  · intro e he
    obtain ⟨hdraft, hblock⟩ := hdrafts e he
    exact ⟨by rw [hdraft.objectId, hblock], hblock⟩

/-- The old nodes, and a new one in its seat. -/
theorem addNode_get? (hst : Growing st) (h : addNode gauss treeDepth parentId depth st = .ok st') :
    ∃ node, (node.parentId = parentId ∧ node.depth = depth ∧ depth ≤ 10) ∧
      st'.tree.nodes.get? st.nodeId = some node ∧
      (∀ id, childCount st'.tree id = childCount st.tree id + if parentId = some id then 1 else 0) ∧
      (∀ id other, st.tree.nodes.get? id = some other → st'.tree.nodes.get? id = some other) ∧
      ∀ id other, st'.tree.nodes.get? id = some other →
        id = st.nodeId ∧ other = node ∨ id ≠ st.nodeId ∧ st.tree.nodes.get? id = some other := by
  obtain ⟨node, htree, hparent, hdepth, hten⟩ := addNode_node h
  refine ⟨node, ⟨hparent, hdepth, hten⟩, by rw [htree, OrderedDict.get?_set_self], fun id => ?_,
    fun id other hget => ?_, fun id other hget => ?_⟩
  · rw [← hparent, ← childCount_set hst.fresh id, ← htree]
  · have hne : id ≠ st.nodeId := by
      rintro rfl
      exact hst.fresh (OrderedDict.mem_keys_iff.mpr ⟨other, hget⟩)
    rw [htree, OrderedDict.get?_set_of_ne _ _ hne]
    exact hget
  · rw [htree, OrderedDict.get?_set] at hget
    split at hget
    · exact .inl ⟨‹_›, (Option.some.inj hget).symm⟩
    · exact .inr ⟨‹_›, hget⟩

/-- A node is placed where its seat is. -/
theorem Seat.placed {tree : DraftTree} {n : ℤ} {node : DraftNode}
    (hplaced : ∀ id other, tree.nodes.get? id = some other → Placed treeDepth tree id other)
    (hparent : ∀ p, node.parentId = some p → 0 ≤ p ∧ p < n)
    (hseat : Seat treeDepth tree node.parentId node.depth) (hlt : node.depth < treeDepth) :
    Placed treeDepth tree n node := by
  rcases hseat with ⟨hroot, hzero⟩ | ⟨p, parent, hp, hget, hdepth, -⟩
  · exact ⟨hzero.ge, hlt, fun _ => hroot, fun hpos => absurd hzero hpos.ne'⟩
  · have hnonneg := (hplaced p parent hget).depth_nonneg
    refine ⟨by omega, hlt, fun hzero => ?_, fun _ => ⟨p, parent, hp, (hparent p hp).2, hget, by omega⟩⟩
    omega

/-- One more child for the parent. -/
theorem Filling.addNode {missing : ℕ} (hst : Growing st)
    (h : Filling treeWidth treeDepth parentId depth (missing + 1) st)
    (hseat : Seat treeDepth st.tree parentId depth) (hlt : depth < treeDepth)
    (hparent : ∀ p, parentId = some p → 0 ≤ p ∧ p < st.nodeId)
    (hadd : addNode gauss treeDepth parentId depth st = .ok st') :
    Filling treeWidth treeDepth parentId depth missing st' ∧ Seat treeDepth st'.tree parentId depth := by
  obtain ⟨node, ⟨hpar, hdep, hten⟩, hnew, hcount, hsub, hget⟩ := addNode_get? hst hadd
  obtain ⟨hlength, hpair, hpairs⟩ := addNode_pair h.length hadd
  have hnodeId := addNode_nodeId hadd
  refine ⟨⟨?count, ?placed, ?children, ?queue, ?shallow, hlength, ?pairs⟩, hseat.mono hsub⟩
  case count =>
    have hold := h.count
    rw [addNode_queued hadd, hnodeId]
    rw [Nat.add_mul, one_mul] at hold
    omega
  case placed =>
    have hplaced : Placed treeDepth st.tree st.nodeId node := by
      subst hpar hdep
      exact Seat.placed h.placed hparent hseat hlt
    intro id other hother
    rcases hget id other hother with ⟨rfl, rfl⟩ | ⟨-, hother⟩
    · exact hplaced.mono hsub
    · exact (h.placed id other hother).mono hsub
  case children =>
    intro id other hother hdeeper
    rw [hcount]
    rcases hget id other hother with ⟨rfl, rfl⟩ | ⟨hne, hother⟩
    · have hself : parentId ≠ some (st.nodeId : ℤ) := by
        intro hp
        have := (hparent _ hp).2
        omega
      rw [hdep] at hdeeper
      rw [childCount_of_new hst.toDrafted, addNode_waits hst hdeeper hadd]
      simp [hself]
    · have hold := h.children id other hother hdeeper
      rw [addNode_waits_of_ne hne hadd]
      split at hold <;> rename_i hp
      · simp only [hp, if_true]
        omega
      · simp only [hp, if_false]
        omega
  case queue =>
    intro entry hentry
    rcases addNode_frontier hadd with ⟨hfrontier, -⟩ | ⟨hfrontier, hnext⟩
    · exact (h.queue entry (hfrontier ▸ hentry)).mono hsub
    · rw [hfrontier, List.mem_append, List.mem_singleton] at hentry
      rcases hentry with hentry | rfl
      · exact (h.queue entry hentry).mono hsub
      · exact .inr ⟨st.nodeId, node, rfl, hnew, by rw [hdep], hnext⟩
  case shallow =>
    intro id other hother
    rcases hget id other hother with ⟨rfl, rfl⟩ | ⟨-, hother⟩
    · rwa [hdep]
    · exact h.shallow id other hother
  case pairs =>
    intro i hi
    rcases Nat.lt_succ_iff_lt_or_eq.mp (hnodeId ▸ hi) with hi | rfl
    · exact hpairs i (h.pairs i hi)
    · exact hpair

/-! ## Parents one after another -/

/-- The parent gets the children it misses. -/
theorem Filling.addChildren {xs : List ℕ} (hst : Growing st)
    (h : Filling treeWidth treeDepth parentId depth xs.length st)
    (hseat : Seat treeDepth st.tree parentId depth) (hlt : depth < treeDepth)
    (hparent : ∀ p, parentId = some p → 0 ≤ p ∧ p < st.nodeId)
    (hadd : xs.foldlM (fun st _ => KVMemoryIntent.addNode gauss treeDepth parentId depth st) st = .ok st') :
    Filling treeWidth treeDepth parentId depth 0 st' := by
  induction xs generalizing st with
  | nil =>
    cases hadd
    exact h
  | cons x xs ih =>
    rw [List.foldlM_cons] at hadd
    obtain ⟨next, hnext, hadd⟩ := Replay.bind_eq_ok.mp hadd
    obtain ⟨hfilling, hseat⟩ := Filling.addNode hst h hseat hlt hparent hnext
    exact ih (hst.addNode hparent hnext) hfilling hseat (addNode_parent hparent hnext) hadd

/-- The next parent is taken off the queue, with nothing below it yet. -/
theorem Filling.next {rest : List (Option ℤ × ℤ)} (h : Filling treeWidth treeDepth none 0 0 st)
    (hqueue : st.frontier = (parentId, depth) :: rest) (hlt : depth < treeDepth) :
    Filling treeWidth treeDepth parentId depth treeWidth { st with frontier := rest } := by
  obtain ⟨hcount, hplaced, hchildren, hseats, hshallow, hlength, hpairs⟩ := h
  rw [hqueue] at hcount hchildren hseats
  refine ⟨?_, hplaced, fun id node hget hdeeper => ?_, fun entry hin => hseats entry (by simp [hin]),
    hshallow, hlength, hpairs⟩
  · have hlevels : ((treeDepth : ℤ) - depth).toNat = ((treeDepth : ℤ) - (depth + 1)).toNat + 1 := by omega
    rw [List.map_cons, List.sum_cons, hlevels, levelsSize] at hcount
    dsimp only
    omega
  · have hold := hchildren id node hget hdeeper
    rw [List.countP_cons] at hold
    by_cases hp : parentId = some id
    · simp only [hp, reduceCtorEq, if_false, decide_true, if_true, Nat.mul_add, mul_one, add_zero] at hold ⊢
      omega
    · simpa [hp] using hold

/-- A parent with all its children is done. -/
theorem Filling.done (h : Filling treeWidth treeDepth parentId depth 0 st) :
    Filling treeWidth treeDepth none 0 0 st :=
  { h with
    count := by simpa using h.count
    children := fun id node hget hdeeper => by simpa using h.children id node hget hdeeper }

/-- Only a tree of no level has a parent that is passed over. -/
theorem Filling.skip {rest : List (Option ℤ × ℤ)} (h : Filling treeWidth treeDepth none 0 0 st)
    (hqueue : st.frontier = (parentId, depth) :: rest) (hge : depth ≥ treeDepth) :
    Filling treeWidth treeDepth none 0 0 { st with frontier := rest } := by
  obtain ⟨hcount, hplaced, hchildren, hseats, hshallow, hlength, hpairs⟩ := h
  rw [hqueue] at hcount hchildren hseats
  have hroot : parentId = none := by
    rcases hseats (parentId, depth) (by simp) with ⟨hnone, -⟩ | ⟨p, node, -, -, -, hlt⟩
    · exact hnone
    · exact absurd hlt (not_lt.mpr hge)
  refine ⟨?_, hplaced, fun id node hget hdeeper => ?_, fun entry hin => hseats entry (by simp [hin]),
    hshallow, hlength, hpairs⟩
  · have hlevels : ((treeDepth : ℤ) - depth).toNat = 0 := by omega
    rw [List.map_cons, List.sum_cons, hlevels, levelsSize] at hcount
    dsimp only
    omega
  · simpa [hroot] using hchildren id node hget hdeeper

/-- The loop ends with no parent left. -/
theorem Filling.growTree {fuel : ℕ} (hst : Growing st) (h : Filling treeWidth treeDepth none 0 0 st)
    (hgrow : growTree gauss treeWidth treeDepth fuel st = .ok st') :
    Growing st' ∧ Filling treeWidth treeDepth none 0 0 st' ∧ st'.frontier = [] := by
  induction fuel generalizing st with
  | zero => cases hgrow
  | succ fuel ih =>
    unfold KVMemoryIntent.growTree at hgrow
    split at hgrow
    · rename_i hempty
      cases hgrow
      exact ⟨hst, h, hempty⟩
    · rename_i parentId depth rest hqueue
      split at hgrow
      · exact ih (hst.rest hqueue) (h.skip hqueue ‹_›) hgrow
      · rename_i hlt
        obtain ⟨next, hchildren, hgrow⟩ := Replay.bind_eq_ok.mp hgrow
        have hparent : ∀ p, parentId = some p → 0 ≤ p ∧ p < st.nodeId := by
          rintro p rfl
          exact hst.frontier p depth (by simp [hqueue])
        have hseat : Seat treeDepth st.tree parentId depth := h.queue (parentId, depth) (by simp [hqueue])
        have hfilling : Filling treeWidth treeDepth parentId depth (List.range treeWidth).length
            { st with frontier := rest } := by
          rw [List.length_range]
          exact h.next hqueue (not_le.mp hlt)
        exact ih ((hst.rest hqueue).addChildren hparent hchildren)
          (Filling.addChildren (hst.rest hqueue) hfilling hseat (not_le.mp hlt) hparent hchildren).done hgrow

theorem Filling.start : Filling treeWidth treeDepth none 0 0 { frontier := [(none, 0)] } where
  count := by simp
  placed := nofun
  children := nofun
  queue := by simp [Seat]
  shallow := nofun
  length := rfl
  pairs := nofun

end Nodes

/-! ## The tree that is returned -/

section Returned

variable {gauss : ℕ → ℚ} {treeWidth treeDepth : ℕ} {tree : DraftTree} {events : List MemoryIntentEvent}

/-- What is returned is a full tree of at most eleven levels. -/
theorem generateSpeculativeWorkload_full
    (h : generateSpeculativeWorkload gauss treeWidth treeDepth = .ok (tree, events)) :
    FullTree treeWidth treeDepth tree events ∧
      ∀ id node, tree.nodes.get? id = some node → node.depth ≤ 10 := by
  obtain ⟨st, hgrow, h⟩ := Replay.bind_eq_ok.mp h
  cases h
  obtain ⟨hst, hfilling, hempty⟩ := Filling.growTree Growing.start Filling.start hgrow
  have hcount : st.nodeId = ∑ k ∈ Finset.range treeDepth, treeWidth ^ (k + 1) := by
    rw [← levelsSize_eq_sum, ← hfilling.count, hempty]
    simp
  have hkeys : st.tree.nodes.keys.length = st.nodeId := by
    rw [hst.keys, List.length_map, List.length_range]
  refine
    ⟨{ ids := by rw [hst.keys, hcount]
       placed := hfilling.placed
       children := fun id node hget hdeeper => ?_
       length := by rw [hfilling.length, hkeys]
       pairs := by
        rw [hkeys]
        exact hfilling.pairs
       steps := hst.steps }, hfilling.shallow⟩
  have hchildren := hfilling.children id node hget hdeeper
  rw [hempty] at hchildren
  simpa using hchildren

/-- A full tree of some width has a node on each of its levels. -/
theorem FullTree.exists_depth (h : FullTree treeWidth treeDepth tree events) (hwidth : 0 < treeWidth)
    {level : ℕ} (hlevel : level < treeDepth) :
    ∃ id node, tree.nodes.get? id = some node ∧ node.depth = level := by
  induction level with
  | zero =>
    have hfirst : (0 : ℤ) ∈ tree.nodes.keys := by
      rw [h.ids, List.mem_map]
      refine ⟨0, List.mem_range.mpr ?_, rfl⟩
      exact Finset.sum_pos (fun k _ => Nat.pow_pos hwidth) (Finset.nonempty_range_iff.mpr (by omega))
    obtain ⟨node, hget⟩ := OrderedDict.mem_keys_iff.mp hfirst
    have hplaced := h.placed 0 node hget
    refine ⟨0, node, hget, ?_⟩
    by_contra hne
    have hnonneg := hplaced.depth_nonneg
    obtain ⟨p, parent, -, hp, hparent, -⟩ := hplaced.below (by omega)
    have hin : p ∈ tree.nodes.keys := OrderedDict.mem_keys_iff.mpr ⟨parent, hparent⟩
    rw [h.ids, List.mem_map] at hin
    obtain ⟨n, -, rfl⟩ := hin
    omega
  | succ level ih =>
    obtain ⟨id, node, hget, hdepth⟩ := ih (by omega)
    have hcount := h.children id node hget (by omega)
    obtain ⟨entry, hentry⟩ := List.exists_mem_of_length_pos (by rw [← childCount, hcount]; exact hwidth)
    obtain ⟨hin, hparent⟩ := List.mem_filter.mp hentry
    have hchild := OrderedDict.get?_eq_some_iff.mpr hin
    have hplaced := h.placed entry.1 entry.2 hchild
    have hbelow : entry.2.parentId = some id := by simpa using hparent
    have hpos : 0 < entry.2.depth := by
      refine lt_of_le_of_ne hplaced.depth_nonneg fun hzero => ?_
      rw [hplaced.root hzero.symm] at hbelow
      cases hbelow
    obtain ⟨p, parent, hp, -, hget', hdepth'⟩ := hplaced.below hpos
    obtain rfl : id = p := Option.some.inj (hbelow.symm.trans hp)
    obtain rfl : node = parent := Option.some.inj (hget.symm.trans hget')
    refine ⟨entry.1, entry.2, hchild, ?_⟩
    push_cast
    omega

/-- The generator returns a full tree for eleven levels at most, or with no child at all. -/
theorem generateSpeculativeWorkload_full_iff (gauss : ℕ → ℚ) (treeWidth treeDepth : ℕ) :
    (∃ tree events, generateSpeculativeWorkload gauss treeWidth treeDepth = .ok (tree, events) ∧
      FullTree treeWidth treeDepth tree events) ↔ treeDepth ≤ 11 ∨ treeWidth = 0 := by
  constructor
  · rintro ⟨tree, events, h, hfull⟩
    by_contra hshape
    push Not at hshape
    have hdeep : 11 < treeDepth := hshape.1
    obtain ⟨id, node, hget, hdepth⟩ := hfull.exists_depth (Nat.pos_of_ne_zero hshape.2) hdeep
    have := (generateSpeculativeWorkload_full h).2 id node hget
    omega
  · intro hshape
    have hshape' : (treeDepth : ℤ) ≤ 11 ∨ (treeWidth : ℤ) ≤ 0 := by omega
    obtain ⟨tree, events, h⟩ := generateSpeculativeWorkload_total gauss hshape'
    exact ⟨tree, events, h, (generateSpeculativeWorkload_full h).1⟩

/-- A chain of twelve nodes is not generated: the recency of the last one would be negative. -/
theorem generateSpeculativeWorkload_twelve_levels :
    ¬∃ tree events, generateSpeculativeWorkload (fun _ => 7 / 10) 1 12 = .ok (tree, events) ∧
      FullTree 1 12 tree events := by
  rintro ⟨tree, events, h, -⟩
  have hraises : (generateSpeculativeWorkload (fun _ => 7 / 10) 1 12).isOk = false := by decide +kernel
  rw [h] at hraises
  cases hraises

end Returned

end KVMemoryIntent
